import BlockProgram.Main
import BlockProgram.Proofs.Workspace.Desk
import BlockProgram.Proofs.Workspace.Recompose
import BlockProgram.Proofs.Workspace.Surroundings
import BlockProgram.Proofs.Document.RoundTrip
import BlockProgram.Proofs.Python.Generate
import BlockProgram.Proofs.Python.Value
import BlockProgram.Proofs.Workspace.Refusal
import BlockProgram.Proofs.Workspace.Typing
import BlockProgram.Proofs.Python.Naming
import BlockProgram.Proofs.Python.Body
import BlockProgram.Proofs.Document.Listed
import BlockProgram.Proofs.Workspace.Loss
import BlockProgram.Proofs.Workspace.Rework
import BlockProgram.Proofs.Python.Capture
import BlockProgram.Proofs.Document.Reload
import BlockProgram.Proofs.Python.Reported
import BlockProgram.Proofs.Workspace.Removal
import BlockProgram.Proofs.Workspace.Displacement
import BlockProgram.Proofs.Workspace.Reinsert
import BlockProgram.Proofs.Workspace.Restructure
import BlockProgram.Proofs.Workspace.Tending
import BlockProgram.Proofs.Workspace.Splice
import BlockProgram.Proofs.Python.Equivariance
import BlockProgram.Proofs.Workspace.Preorder
import BlockProgram.Proofs.Python.Header
import BlockProgram.Proofs.Document.Label
import BlockProgram.Proofs.TestFile.Split
import BlockProgram.Proofs.Command.Test
