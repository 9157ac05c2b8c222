import SoundArchive.Binary.Header
import SoundArchive.Sequence.Reading
import SoundArchive.Sequence.Splice
import SoundArchive.Sequence.Basic
import SoundArchive.Wave.Archive
import SoundArchive.Bank.Body
import SoundArchive.Archive.Encode
import SoundArchive.Archive.File
import SoundArchive.Archive.Merge
import SoundArchive.Archive.Embedded
import SoundArchive.Strip.Basic
import SoundArchive.Collect.Basic
import SoundArchive.Playback.Curve
import SoundArchive.Playback.Channel.Mix
import SoundArchive.Playback.SequenceLength
import SoundArchive.Publish.Timing
import SoundArchive.Publish.Publication
import SoundArchive.CommandLine.Desk
import SoundArchive.Main
import SoundArchive.Proofs.Ascending
import SoundArchive.Proofs.Sequence.Walk
import SoundArchive.Proofs.Sequence.Findings
import SoundArchive.Proofs.Sequence.Visits
import SoundArchive.Proofs.Sequence.Decoding
import SoundArchive.Proofs.Sequence.Reading
import SoundArchive.Proofs.Sequence.Retargeting
import SoundArchive.Proofs.Sequence.Layout
import SoundArchive.Proofs.Sequence.Splicing
import SoundArchive.Proofs.Sequence.Rescanning
import SoundArchive.Proofs.Playback.Foresight
import SoundArchive.Proofs.Playback.Run
import SoundArchive.Proofs.Playback.PatchCoverage
import SoundArchive.Proofs.Playback.Execution
import SoundArchive.Proofs.Playback.Timing
import SoundArchive.Proofs.Playback.Looping
import SoundArchive.Proofs.Playback.Endings
import SoundArchive.Proofs.Playback.Past
import SoundArchive.Proofs.Playback.NewNotes
import SoundArchive.Proofs.Archive.Sections
import SoundArchive.Proofs.Archive.Index
import SoundArchive.Proofs.Archive.Symbols
import SoundArchive.Proofs.Archive.FileTable
import SoundArchive.Proofs.Archive.RoundTrip
import SoundArchive.Proofs.Archive.Contents
import SoundArchive.Proofs.Archive.Decoded
import SoundArchive.Proofs.Archive.Rereading
import SoundArchive.Proofs.Archive.Leniency
import SoundArchive.Proofs.Strip.Leaders
import SoundArchive.Proofs.Strip.Content
import SoundArchive.Proofs.Strip.Players
import SoundArchive.Proofs.Strip.Compact
import SoundArchive.Proofs.Strip.Stripped
import SoundArchive.Proofs.Strip.Idempotence
import SoundArchive.Proofs.Strip.FileOrder
import SoundArchive.Proofs.Archive.Layout
import SoundArchive.Proofs.Strip.SecondCopy
import SoundArchive.Proofs.Collect.Selection
import SoundArchive.Proofs.Collect.Waves
import SoundArchive.Proofs.Collect.InitialPatch
import SoundArchive.Proofs.Collect.Instruments
import SoundArchive.Proofs.Collect.Sound
import SoundArchive.Proofs.Collect.Settled
import SoundArchive.Proofs.Collect.Renumbering
import SoundArchive.Proofs.Collect.Reselection
import SoundArchive.Proofs.Collect.Idempotence
import SoundArchive.Proofs.Merge.Appended
import SoundArchive.Proofs.Merge.Captured
import SoundArchive.Proofs.Merge.Associativity
import SoundArchive.Proofs.Sequence.StaticClosure
import SoundArchive.Proofs.Sequence.PatchOrder
import SoundArchive.Proofs.Sequence.Numbers
import SoundArchive.Proofs.Playback.Courses
import SoundArchive.Proofs.Playback.CountedLoops
import SoundArchive.Proofs.Strip.PlayerNumbers
import SoundArchive.Proofs.Text.Wildcard
import SoundArchive.Proofs.Bank.Ranges
import SoundArchive.Proofs.Bank.Rereading
import SoundArchive.Proofs.Bank.KeySelection
import SoundArchive.Proofs.Wave.Rereading
import SoundArchive.Proofs.Archive.Embedded
import SoundArchive.Proofs.Playback.Pitch
import SoundArchive.Proofs.Wave.LoopRegion
import SoundArchive.Proofs.Playback.Envelopes
import SoundArchive.Proofs.Playback.Beats
import SoundArchive.Proofs.Playback.Melodies
import SoundArchive.Proofs.Text.Lines
import SoundArchive.Proofs.Publish.Tags
import SoundArchive.Proofs.Publish.TagText
import SoundArchive.Proofs.Publish.OrderedMap
import SoundArchive.Proofs.Strip.Classes
import SoundArchive.Proofs.Playback.Allocation
