import HassOS.Framework.Run
import HassOS.Framework.Script
import HassOS.Framework.Text
import HassOS.Framework.Files
import HassOS.Slot
import HassOS.Tryboot.Cmdline
import HassOS.Tryboot.Backend
import HassOS.Tryboot.Firmware
import HassOS.Tryboot.Slots
import HassOS.Tryboot.Invariant
import HassOS.Tryboot.PowerLoss
import HassOS.Tryboot.NextBoot
import HassOS.Tryboot.Commit
import HassOS.Tryboot.Rollback
import HassOS.Tryboot.WipeFlag
import HassOS.Tryboot.Wipe
import HassOS.Framework.Rotation
import HassOS.Grub.Select
import HassOS.Grub.Loops
import HassOS.Grub.Valid
import HassOS.UBoot.Boot
import HassOS.UBoot.MarkBad
import HassOS.Framework.Errexit
import HassOS.Hook.InstallBoot
import HassOS.Hook.GrubFallback
import HassOS.Hook.Rpi5
import HassOS.UBoot.LikeGrub
import HassOS.Data.Migration
import HassOS.Data.Detach
import HassOS.Supervisor.Script
import HassOS.Supervisor.UpToDate
import HassOS.Supervisor.Discard
import HassOS.Hook.Rpi5Marks
import HassOS.Framework.Xargs
import HassOS.Tryboot.ConfigLines
import HassOS.Tryboot.CmdlineLaws
import HassOS.Hook.BootResult
import HassOS.Hook.UserFiles
import HassOS.Config.Import
import HassOS.Framework.Awk
import HassOS.Swap.Size
import HassOS.Swap.Swapfile
import HassOS.Persist.MachineId
import HassOS.Images.Fetch
import HassOS.Framework.Reads
import HassOS.Grub.Smbios
import HassOS.Framework.Chain
import HassOS.Docker.SubnetProtection
import HassOS.Framework.Dict
import HassOS.Scripts.CheckDotconfig
import HassOS.Framework.Buffer
import HassOS.Grub.FileEnv
import HassOS.Network.Ntp
import HassOS.Framework.Vars
import HassOS.UBoot.UserConfig
import HassOS.UBoot.UserChannels
import HassOS.UBoot.UserRefines
import HassOS.Framework.Task
import HassOS.Framework.Memo
import HassOS.Framework.Python
import HassOS.Kconfiglib.Expr
import HassOS.Kconfiglib.Value
import HassOS.Kconfiglib.Reads
import HassOS.Kconfiglib.Cache
import HassOS.Kconfiglib.Agree
import HassOS.Kconfiglib.Assign
import HassOS.Kconfiglib.Load
import HassOS.Kconfiglib.Restore
import HassOS.Kconfiglib.Write
import HassOS.Kconfiglib.RoundTrip
