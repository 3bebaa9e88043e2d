import Npl.Disk.Edit
import Npl.Main
import Npl.Proofs.Delivery
import Npl.Proofs.Documents.Keys
import Npl.Proofs.Documents.Stamps
import Npl.Proofs.Program.Circularity
import Npl.Proofs.Program.Libraries
import Npl.Proofs.Program.LineEnds
import Npl.Proofs.Program.Precedence
import Npl.Proofs.Program.Relocation
import Npl.Proofs.Program.Resolution
import Npl.Proofs.Program.Variables
import Npl.Proofs.Project.Addressees
import Npl.Proofs.Project.Alone
import Npl.Proofs.Project.Editing
import Npl.Proofs.Project.Freshness
import Npl.Proofs.Project.InFlight
import Npl.Proofs.Project.Leftovers
import Npl.Proofs.Project.Meeting
import Npl.Proofs.Project.Scoping
import Npl.Proofs.Server.Folders
import Npl.Proofs.Server.Texts
import Npl.Proofs.Server.Waiting
import Npl.Proofs.Syntax.Acceptance
import Npl.Proofs.Syntax.Ending
import Npl.Proofs.Syntax.LineEnds
import Npl.Proofs.Syntax.Relocation
import Npl.Proofs.Syntax.Semicolons
import Npl.Proofs.Syntax.Spelling
import Npl.Proofs.Text.Newline
import Npl.Proofs.Timer.Worker
import Npl.Proofs.Workspace.Library
import Npl.Template.Fill
