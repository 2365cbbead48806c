import ShiftReduce.Json.Printer
import ShiftReduce.Json.Reader
import ShiftReduce.Service.Server
import ShiftReduce.Proofs.Grammar.Augmented
import ShiftReduce.Proofs.Grammar.Productive
import ShiftReduce.Proofs.Order.FirstOccurrences
import ShiftReduce.Proofs.Item.Closure
import ShiftReduce.Proofs.Item.LeastClosed
import ShiftReduce.Proofs.Automaton.Collection
import ShiftReduce.Proofs.Automaton.Edge
import ShiftReduce.Proofs.Automaton.Canonical
import ShiftReduce.Proofs.Automaton.ViablePrefix
import ShiftReduce.Proofs.Automaton.Discovery
import ShiftReduce.Proofs.Run.Walk
import ShiftReduce.Proofs.Table.Filling
import ShiftReduce.Proofs.Table.Candidates
import ShiftReduce.Proofs.Table.Adequacy
import ShiftReduce.Proofs.Table.Provenance
import ShiftReduce.Proofs.Run.Path
import ShiftReduce.Proofs.Run.Track
import ShiftReduce.Proofs.Run.Safety
import ShiftReduce.Proofs.Run.Soundness
import ShiftReduce.Proofs.Run.Following
import ShiftReduce.Proofs.Run.Completeness
import ShiftReduce.Proofs.Run.FirstError
import ShiftReduce.Proofs.Run.Halting
import ShiftReduce.Proofs.Grammar.Validation
import ShiftReduce.Proofs.Grammar.Fresh
import ShiftReduce.Proofs.Grammar.Authored
import ShiftReduce.Proofs.Grammar.Comment
import ShiftReduce.Proofs.Grammar.Printed
import ShiftReduce.Proofs.Grammar.Respelled
import ShiftReduce.Proofs.Session.Stages
import ShiftReduce.Proofs.Service.Status
import ShiftReduce.Proofs.Grammar.Reordered
import ShiftReduce.Proofs.Automaton.Renumbered
import ShiftReduce.Proofs.Table.Renumbered
import ShiftReduce.Proofs.Run.Reordered
import ShiftReduce.Proofs.Run.Shape
import ShiftReduce.Proofs.Run.Replay
import ShiftReduce.Proofs.Run.Limit
import ShiftReduce.Proofs.Run.Forest
import ShiftReduce.Proofs.Run.Typed
import ShiftReduce.Proofs.Grammar.Orphan
import ShiftReduce.Proofs.Grammar.Scripted
import ShiftReduce.Proofs.Grammar.Place
import ShiftReduce.Proofs.Grammar.TextForm
import ShiftReduce.Proofs.Grammar.Continued
import ShiftReduce.Proofs.Grammar.LineComment
import ShiftReduce.Proofs.Render.Pages
import ShiftReduce.Proofs.Render.ShownTable
import ShiftReduce.Proofs.Render.TreeGraph
import ShiftReduce.Proofs.Render.AutomatonGraph
import ShiftReduce.Proofs.Text.Substitution
import ShiftReduce.Proofs.Table.Generator
import ShiftReduce.Proofs.Table.Draft
import ShiftReduce.Proofs.Automaton.Builder
