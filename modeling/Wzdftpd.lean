import Wzdftpd.TransferPaths
import Wzdftpd.ControlStream
import Wzdftpd.TransferState
import Wzdftpd.LoginRace
import Wzdftpd.MoveFailure
import Wzdftpd.PermMask
import Wzdftpd.UploadCredits
import Wzdftpd.SiteFrame
import Wzdftpd.SiteSlots
import Wzdftpd.SiteLeech
import Wzdftpd.SiteNames
import Wzdftpd.UsersFileRoundTrip
import Wzdftpd.ConfigChunks
import Wzdftpd.ConfigRoundTrip
import Wzdftpd.ConfigSettings
import Wzdftpd.ModUser
import Wzdftpd.SiteIps
import Wzdftpd.CrontabRuns
import Wzdftpd.NumberedMessages
import Wzdftpd.SitePasswords
import Wzdftpd.Crc32
import Wzdftpd.VfsPerm
import Wzdftpd.ShmVars
import Wzdftpd.Passwords
import Wzdftpd.TransferReplies
import Wzdftpd.DeleteUpload
import Wzdftpd.SafeRename
import Wzdftpd.SimplifyBuffer
import Wzdftpd.ChangeDir
import Wzdftpd.PathNames
import Wzdftpd.ListBuffer
import Wzdftpd.ListCommand
import Wzdftpd.DirExact
import Wzdftpd.FlagArray
import Wzdftpd.SiteGroup
import Wzdftpd.CacheGets
import Wzdftpd.StringTokens
import Wzdftpd.StringSplit
import Wzdftpd.Base64
import Wzdftpd.ConfigStrings
import Wzdftpd.SqliteIps
import Wzdftpd.PassivePorts
import Wzdftpd.Strlcat
import Wzdftpd.VfsCookies
import Wzdftpd.SiteRights
