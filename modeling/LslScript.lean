import LslScript.Main
import LslScript.Draft.Step
import LslScript.Proofs.Headers
import LslScript.Proofs.Listings
import LslScript.Proofs.HeaderLines
import LslScript.Proofs.Grammar
import LslScript.Proofs.Reader
import LslScript.Proofs.WellFormed
import LslScript.Proofs.Edits
import LslScript.Proofs.Reachable
import LslScript.Proofs.Reload
import LslScript.Proofs.Traces
import LslScript.Proofs.ErrorLines
import LslScript.Proofs.Anchors
import LslScript.Proofs.Content
import LslScript.Proofs.Blocks
import LslScript.Proofs.Splices
import LslScript.Proofs.Generated
import LslScript.Proofs.Running
import LslScript.Proofs.Meaning
import LslScript.Proofs.Resuming
import LslScript.Proofs.Lookalikes
import LslScript.Proofs.Expanding
import LslScript.Proofs.Encoded
import LslScript.Proofs.Interleaving
import LslScript.Proofs.Persisted
import LslScript.Proofs.Numerals
import LslScript.Proofs.Strings
import LslScript.Proofs.JsonTexts
import LslScript.Proofs.Literals
import LslScript.Proofs.Records
import LslScript.Proofs.RecipeTexts
import LslScript.Proofs.Places
import LslScript.Proofs.Commands
import LslScript.Proofs.Outputs
import LslScript.Proofs.ScriptPlaces
import LslScript.Proofs.Bracketed
import LslScript.Proofs.CallLines
import LslScript.Proofs.Framing
import LslScript.Proofs.Rounding
import LslScript.Proofs.Nearest
import LslScript.Proofs.ReadBack
import LslScript.Proofs.Lasting
import LslScript.Proofs.Notices
import LslScript.Proofs.Effects
