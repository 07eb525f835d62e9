import EspFirmware.Commit
import EspFirmware.Overrun
import EspFirmware.PowerLoss
import EspFirmware.PendingFlag
import EspFirmware.ErrorReports
import EspFirmware.StatusLine
import EspFirmware.HeaderFields
import EspFirmware.HeaderMemory
import EspFirmware.Delivery
import EspFirmware.Reading
import EspFirmware.Segmentation
import EspFirmware.Lib.HttpMessage
import EspFirmware.Lib.FirstAnswer
import EspFirmware.RequestText
import EspFirmware.VersionCheck
import EspFirmware.Startup
import EspFirmware.FieldValues
import EspFirmware.ForeignFields
import EspFirmware.BadStatus
import EspFirmware.HeaderChunks
import EspFirmware.HeaderSafety
import EspFirmware.ResponseBody
import EspFirmware.Lib.Clock
import EspFirmware.RequestTimeout
import EspFirmware.VersionOrder
import EspFirmware.Lib.Printf
import EspFirmware.Logging
import EspFirmware.RandomString
import EspFirmware.WifiManager
import EspFirmware.WifiTimers
import EspFirmware.DownloadProgress
import EspFirmware.Lib.Footprint
import EspFirmware.VersionMemory
import EspFirmware.Install
import EspFirmware.Rollback
import EspFirmware.Timer
import EspFirmware.TimerSchedule
import EspFirmware.UpdateWrite
import EspFirmware.Lib.Restart
import EspFirmware.Lib.Simulation
import EspFirmware.RequestOutcome
import EspFirmware.SecureClient
import EspFirmware.StreamText
import EspFirmware.UpdateUnknown
import EspFirmware.PeerIdentity
import EspFirmware.SecureWrite
import EspFirmware.UpdateSource
import EspFirmware.Connections
import EspFirmware.WifiStation
