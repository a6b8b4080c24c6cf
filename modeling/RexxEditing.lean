import RexxEditing.Command.Help
import RexxEditing.Command.Parse
import RexxEditing.Command.Run
import RexxEditing.Files.Basic
import RexxEditing.Format
import RexxEditing.Highlight.Render
import RexxEditing.Highlight.Stream
import RexxEditing.Main
import RexxEditing.Outline.Symbols
import RexxEditing.Proofs.Checked.Total
import RexxEditing.Proofs.Command.Offset
import RexxEditing.Proofs.Format.Frame
import RexxEditing.Proofs.Highlight.Literal
import RexxEditing.Proofs.Highlight.Partition
import RexxEditing.Proofs.Highlight.Respacing
import RexxEditing.Proofs.Highlight.Restart
import RexxEditing.Proofs.Indent.Agreement
import RexxEditing.Proofs.Indent.Comments
import RexxEditing.Proofs.Indent.EntryStates
import RexxEditing.Proofs.Indent.Insertion
import RexxEditing.Proofs.Indent.LineEnds
import RexxEditing.Proofs.Indent.Nesting
import RexxEditing.Proofs.Indent.Representation
import RexxEditing.Proofs.Indent.Room
import RexxEditing.Proofs.Indent.Scaling
import RexxEditing.Proofs.Lexeme.Munch
import RexxEditing.Proofs.Outline.Case
import RexxEditing.Proofs.Outline.Labels
import RexxEditing.Proofs.Outline.Procedure
import RexxEditing.Proofs.Outline.Symbols
import RexxEditing.Proofs.Region.Extent
import RexxEditing.Proofs.Semantic.Decoding
import RexxEditing.Proofs.Session.Invariant
import RexxEditing.Session
import RexxEditing.Settings.Load
import RexxEditing.Proofs.Highlight.Stream
