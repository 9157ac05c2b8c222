import SoundArchive.Text.Blank
import SoundArchive.Text.Wildcard

/-!
# Rules for keeping sequences

A decider gives a verdict on a sequence from its name and the archive it came from. Rules are
deciders made of wildcard patterns, of which the last one that matches has its way.
-/

namespace SoundArchive

inductive Verdict where
  | included
  | excluded
  /-- No rule applies. -/
  | unspecified
deriving DecidableEq

/-- The verdict on a sequence of this name, from the archive of this id. -/
abbrev Decider := (name archiveId : String) → Verdict

structure Rule where
  /-- The pattern of the archive, where the rule was given with one. -/
  archive : Option String
  name : String
  verdict : Verdict
deriving DecidableEq

namespace Rule

/-- A pattern is that of a name, or those of an archive and a name with a slash in between. -/
def parse (pattern : String) (verdict : Verdict) : Rule :=
  match Text.splitAt? '/' pattern.toList with
  | some (archive, name) =>
    { archive := some (String.ofList archive), name := String.ofList name, verdict }
  | none => { archive := none, name := pattern, verdict }

def applies (r : Rule) (name archiveId : String) : Bool :=
  (match r.archive with
    | some pattern => Text.wildcardMatch pattern archiveId
    | none => true) && Text.wildcardMatch r.name name

end Rule

/-- The verdict of the last rule that applies. -/
def decideByRules (rules : List Rule) : Decider := fun name archiveId =>
  match rules.reverse.find? (·.applies name archiveId) with
  | some rule => rule.verdict
  | none => .unspecified

end SoundArchive
