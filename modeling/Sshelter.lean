import Sshelter.Verified.SavedLibrary
import Sshelter.Verified.ReviewOutgoing
import Sshelter.Verified.PinAuthority
import Sshelter.Verified.GroupRepair
import Sshelter.Verified.PinHistory
import Sshelter.Verified.PinExchange
import Sshelter.Verified.Relocation
import Sshelter.Verified.Convergence
import Sshelter.Verified.AgentSession
import Sshelter.Verified.HeldRevisions
import Sshelter.Verified.IncludedLibrary
import Sshelter.Verified.ConfigRuns
import Sshelter.Verified.EditedText
import Sshelter.Verified.SigningAuthority
import Sshelter.Verified.RelayRuns
import Sshelter.Verified.PushBatches
import Sshelter.Verified.PullRound
import Sshelter.Verified.LeaveLibrary
import Sshelter.Verified.RouteExpansion
import Sshelter.Verified.Inheritance
import Sshelter.Verified.Receipts
import Sshelter.Verified.LocalWrites
import Sshelter.Verified.Planning
import Sshelter.Verified.NoEcho
import Sshelter.Verified.Rotation
import Sshelter.Verified.RowBinding
import Sshelter.Verified.ByteQueue
import Sshelter.Verified.IpWindows
import Sshelter.Verified.MarkedLines
import Sshelter.Verified.FieldEdits
import Sshelter.Verified.PlainForwards
import Sshelter.Verified.PaddedScalar
import Sshelter.Lib.JoinedWords
import Sshelter.Verified.IncludePaths
import Sshelter.Verified.Reordering
import Sshelter.Verified.CoveredFiles
import Sshelter.Verified.Frames
import Sshelter.Verified.KeptKeys
import Sshelter.Verified.LeaveConditions
import Sshelter.Verified.ConnectSafety
import Sshelter.Verified.LoginBanners
