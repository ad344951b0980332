import Scriptlet.CommandLine
import Scriptlet.Main
import Scriptlet.Proofs.Parsing.Counted
import Scriptlet.Proofs.Parsing.Diagnostics
import Scriptlet.Proofs.Parsing.Isolated
import Scriptlet.Proofs.Parsing.Nested
import Scriptlet.Proofs.Parsing.Shown
import Scriptlet.Proofs.Printing.Apart
import Scriptlet.Proofs.Printing.Reprint
import Scriptlet.Proofs.Run.Dialogue
import Scriptlet.Proofs.Run.ForLoop
import Scriptlet.Proofs.Run.FrameLimit
import Scriptlet.Proofs.Run.Joined
import Scriptlet.Proofs.Run.Layout
import Scriptlet.Proofs.Run.LoopFree
import Scriptlet.Proofs.Run.Lowered
import Scriptlet.Proofs.Run.Sourced
import Scriptlet.Proofs.Run.Truncated
import Scriptlet.Proofs.Scanning.Cursors
import Scriptlet.Proofs.Scanning.Errors
import Scriptlet.Proofs.Scopes.Confined
import Scriptlet.Proofs.Scopes.Declared
import Scriptlet.Proofs.Scopes.Lexical
import Scriptlet.Proofs.Scopes.Nearest
import Scriptlet.Proofs.Scopes.Outward
import Scriptlet.Proofs.Scopes.Padded
