import KFaceAuth.Camera.Capture
import KFaceAuth.Camera.Editing
import KFaceAuth.Camera.Listing
import KFaceAuth.Camera.Transaction
import KFaceAuth.Daemon.AuthChild
import KFaceAuth.Daemon.Connection
import KFaceAuth.Daemon.Ingress
import KFaceAuth.Daemon.PamModule
import KFaceAuth.Daemon.RateLimiter
import KFaceAuth.Daemon.Requests
import KFaceAuth.Daemon.Worker
import KFaceAuth.Enrollment.AuthReadback
import KFaceAuth.Enrollment.Cancellation
import KFaceAuth.Enrollment.Status
import KFaceAuth.Enrollment.WorkerCompletions
import KFaceAuth.Lib.Lines
import KFaceAuth.Lib.Sha256
import KFaceAuth.Lib.Sorted
import KFaceAuth.Models.Inventory
import KFaceAuth.Models.Sha256
import KFaceAuth.Policy.Grammar
import KFaceAuth.Policy.Store
import KFaceAuth.Preview.Agreement
import KFaceAuth.Preview.Analysis
import KFaceAuth.Preview.Cameras
import KFaceAuth.Preview.Devices
import KFaceAuth.Preview.Frames
import KFaceAuth.Preview.Output
import KFaceAuth.System.Arguments
import KFaceAuth.System.Frame
import KFaceAuth.System.Leftovers
import KFaceAuth.System.PamSetup
import KFaceAuth.Vault.Concurrent
import KFaceAuth.Vault.Lock
import KFaceAuth.Vault.RoundTrip
import KFaceAuth.Worker.IdentitySession
import KFaceAuth.Worker.Pixels
import KFaceAuth.Worker.Verify
import KFaceAuth.Worker.VisionSession
