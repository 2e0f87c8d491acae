import Yeetbox.Properties.ObjectIds
import Yeetbox.Properties.Deletion
import Yeetbox.Properties.Versions
import Yeetbox.Properties.Readability
import Yeetbox.Properties.Dangling
import Yeetbox.Properties.Sessions
import Yeetbox.Properties.Rejections
import Yeetbox.Properties.Paths
import Yeetbox.Properties.Failures
import Yeetbox.Properties.Ownership
import Yeetbox.Properties.UsedTokens
import Yeetbox.Properties.Trees
import Yeetbox.Properties.Subtrees
import Yeetbox.Properties.Paging
import Yeetbox.Properties.Exits
import Yeetbox.Properties.Copies
import Yeetbox.Properties.Mediation
import Yeetbox.Properties.PlainAuth
import Yeetbox.Properties.Timestamps
import Yeetbox.Properties.Clocks
import Yeetbox.Properties.FolderIds
import Yeetbox.Properties.Listings
import Yeetbox.Properties.Slices
import Yeetbox.Properties.AppendReads
import Yeetbox.Properties.Acknowledged
import Yeetbox.Properties.BlobNames
import Yeetbox.Properties.ReportedTypes
import Yeetbox.Properties.VersionLoop
import Yeetbox.Properties.Reservations
import Yeetbox.Properties.Histories
import Yeetbox.Properties.Lifetimes
import Yeetbox.Properties.Leftovers
import Yeetbox.Properties.Stops
import Yeetbox.Properties.Crashes
import Yeetbox.Properties.Retries
import Yeetbox.Properties.SerialUploads
import Yeetbox.Properties.VersionRaces
import Yeetbox.Properties.Attributes
import Yeetbox.FileStorage.Download
import Yeetbox.Properties.WholeDownloads
