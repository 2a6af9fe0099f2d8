import LivediskForensic.Lib.StableSort
import LivediskForensic.Lib.Text
import LivediskForensic.Lib.Utf8
import LivediskForensic.Lib.Decimal
import LivediskForensic.Lib.LittleEndian
import LivediskForensic.Lib.Utf16
import LivediskForensic.Lib.Grouping
import LivediskForensic.Lib.Apportion
import LivediskForensic.Lib.Levelling
import LivediskForensic.Lib.Ansi
import LivediskForensic.Lib.Styled
import LivediskForensic.Lib.Checked
import LivediskForensic.Lib.Sweep
import LivediskForensic.Lib.RoundRobin
import LivediskForensic.Lib.Rounding
import LivediskForensic.Lib.Interaction
import LivediskForensic.Model.Disk
import LivediskForensic.Model.OpenDevice
import LivediskForensic.Linux.Sysfs
import LivediskForensic.Linux.MountLookup
import LivediskForensic.Linux.MountFrame
import LivediskForensic.Linux.Enumerate
import LivediskForensic.Linux.MountBytes
import LivediskForensic.Linux.MountEncoding
import LivediskForensic.Linux.MountNewline
import LivediskForensic.Linux.Sectors
import LivediskForensic.Linux.Calls
import LivediskForensic.Linux.Machine
import LivediskForensic.Linux.ListingImage
import LivediskForensic.Forensic.Analyse
import LivediskForensic.Forensic.MountedTarget
import LivediskForensic.Forensic.MountEvidence
import LivediskForensic.Windows.DriveLayout
import LivediskForensic.Windows.DriveLayoutEncoding
import LivediskForensic.Windows.DriveLayoutChecked
import LivediskForensic.Windows.Truncation
import LivediskForensic.Windows.Enumerate
import LivediskForensic.Windows.NameNewline
import LivediskForensic.Windows.DriveLayoutImage
import LivediskForensic.Windows.Ffi
import LivediskForensic.Windows.Machine
import LivediskForensic.Windows.ListingImage
import LivediskForensic.Macos.Assemble
import LivediskForensic.Macos.AnyMedia
import LivediskForensic.Macos.Ffi
import LivediskForensic.Macos.Machine
import LivediskForensic.Macos.ListingImage
import LivediskForensic.Enumeration.Failures
import LivediskForensic.Enumeration.DevicePaths
import LivediskForensic.Enumeration.OrderIndependence
import LivediskForensic.Enumeration.IndexOrder
import LivediskForensic.Enumeration.Hardware
import LivediskForensic.Enumeration.Reports
import LivediskForensic.Render.Bar
import LivediskForensic.Render.Widths
import LivediskForensic.Render.WidthsChecked
import LivediskForensic.Render.Visible
import LivediskForensic.Render.Quota
import LivediskForensic.Render.WidthOrder
import LivediskForensic.Render.WidthLaws
import LivediskForensic.Render.Slots
import LivediskForensic.Render.BarAgreement
import LivediskForensic.Enumeration.SameBar
import LivediskForensic.Render.SlotWindow
import LivediskForensic.Render.SegmentCover
import LivediskForensic.Render.Table
import LivediskForensic.Render.Listing
import LivediskForensic.Render.Views
import LivediskForensic.Render.Modes
import LivediskForensic.Render.OverviewTotal
import LivediskForensic.Render.OverviewRows
import LivediskForensic.Render.TableRows
import LivediskForensic.Render.Paragraphs
import LivediskForensic.Render.HumanSize
import LivediskForensic.Render.SizeOrder
import LivediskForensic.Render.TableReader
