import Ouroboros.Regex.Language
import Ouroboros.Kernel.Credentials
import Ouroboros.Kernel.Regions
import Ouroboros.Loader.Safety
import Ouroboros.Mmu.Isolation
import Ouroboros.Kernel.Waits
import Ouroboros.Kernel.Reuse
import Ouroboros.Netd.Stream
import Ouroboros.Netd.Keyed
import Ouroboros.Netd.Parked
import Ouroboros.Netd.Users
import Ouroboros.Netd.KeyLines
import Ouroboros.Accounts.Login
import Ouroboros.Accounts.Accountd
import Ouroboros.Accounts.Spans
import Ouroboros.Fsd.Panic
import Ouroboros.Fsd.ReadOnly
import Ouroboros.Fsd.Search
import Ouroboros.Fsd.Directories
import Ouroboros.Fsd.Objects
import Ouroboros.Fat32.Reads
import Ouroboros.Fat32.Cursors
import Ouroboros.Fat32.Refusals
import Ouroboros.Exfat.Moves
import Ouroboros.Parttable.Blank
import Ouroboros.Shell.Wildcard
