import Interview.Control.Record
import Interview.Demo
import Interview.Main
import Interview.Proofs.Draft.Undo
import Interview.Proofs.Run.Order
import Interview.Rehearsal.Rules
import Interview.Terminal.LineMode
import Interview.Proofs.Run.Moves
import Interview.Proofs.Run.Steps
import Interview.Proofs.Run.ForwardPass
import Interview.Proofs.Controls.Books
import Interview.Proofs.Controls.Screens
import Interview.Proofs.Controls.Questions
import Interview.Proofs.Controls.Sittings
import Interview.Proofs.Answers.Contents
import Interview.Proofs.Answers.Screens
import Interview.Proofs.Answers.Forms
import Interview.Proofs.Launch.Questions
import Interview.Proofs.Launch.Reading
import Interview.Proofs.Launch.Coherence
import Interview.Proofs.Typing.Acceptance
import Interview.Proofs.Typing.Superseded
import Interview.Proofs.Typing.Transcripts
import Interview.Proofs.Draft.Records
import Interview.Proofs.Draft.Footprint
import Interview.Proofs.Run.Account
import Interview.Proofs.Run.Inner
import Interview.Proofs.Run.Retreat
import Interview.Proofs.Run.Recollection
import Interview.Proofs.Run.Policies
import Interview.Proofs.Run.Checked
import Interview.Proofs.Run.Reoffers
import Interview.Proofs.Run.Survival
import Interview.Proofs.Run.Clearing
import Interview.Proofs.Run.Dependencies
import Interview.Proofs.Run.Spared
import Interview.Proofs.Run.Restoration
import Interview.Proofs.Answers.Records
import Interview.Proofs.Tail.Questions
import Interview.Proofs.Controls.Made
import Interview.Proofs.Tail.Requests
import Interview.Proofs.Terminal.Lists
import Interview.Proofs.Terminal.Choices
import Interview.Proofs.Terminal.Prompts
import Interview.Proofs.Terminal.Commands
import Interview.Proofs.Run.Reports
import Interview.Proofs.Run.Required
import Interview.Proofs.Ending.Runs
import Interview.Proofs.Picking.Diaries
import Interview.Proofs.Picking.Calls
import Interview.Proofs.Picking.Conversations
import Interview.Proofs.Picking.Selections
import Interview.Proofs.Picking.Acceptances
import Interview.Proofs.Picking.Loading
import Interview.Proofs.Picking.Transcripts
import Interview.Proofs.Picking.Defaults
import Interview.Proofs.Controls.Calls
import Interview.Proofs.Controls.Decisions
import Interview.Proofs.Controls.Attention
import Interview.Proofs.Typing.Display
import Interview.Proofs.Pattern.Grammar
import Interview.Proofs.Tiers.Alternation
import Interview.Proofs.Typing.Copies
import Interview.Proofs.Launch.Payloads
import Interview.Proofs.Path.Algebra
import Interview.Proofs.Draft.Writes
import Interview.Proofs.Draft.Stripped
