import Camkit.RtpPack.Model.Sender
import Camkit.RtpPack.Wire
import Camkit.RtpPack.Refinement
import Camkit.RtpPack.Drain
import Camkit.RtpPack.RoundTrip
import Camkit.RtpPack.Lookahead
import Camkit.Common.Machine
import Camkit.RtpPack.Model.Calls
import Camkit.RtpPack.Runs
import Camkit.RtpPack.Header
import Camkit.RtpPack.Clock
import Camkit.RtpPack.Restart
import Camkit.Vpu.Model.Encode
import Camkit.Vpu.Geometry
import Camkit.Vpu.Headers
import Camkit.Capture.Model.Open
import Camkit.Capture.Model.Stream
import Camkit.Capture.Ownership
import Camkit.Capture.Custody
import Camkit.Capture.Sessions
import Camkit.RtpPack.Length
import Camkit.RtpPack.Fragments
import Camkit.RtpPack.AccessUnit
import Camkit.RtpPack.Arithmetic
import Camkit.Common.Shared
import Camkit.Vpu.Model.Process
import Camkit.Vpu.Interference
import Camkit.Ffmpeg.Model.Encode
import Camkit.ForcedPicture
import Camkit.Common.Units
import Camkit.Omx.Model.Encode
import Camkit.Omx.Combination
import Camkit.Omx.Assembly
import Camkit.SoftConvert.Model.Convert
import Camkit.Common.Loop
import Camkit.SoftConvert.Scan
import Camkit.SoftConvert.Planes
import Camkit.SoftConvert.Bounds
import Camkit.Common.Ring
import Camkit.Vpu.Pool
import Camkit.Common.Ledger
import Camkit.Capture.Release
import Camkit.Vpu.Release
import Camkit.RtpPack.Tiling
import Camkit.RtpPack.Padding
import Camkit.Settings
import Camkit.Common.Raster
import Camkit.Timestamp.Model.Font
import Camkit.Timestamp.Model.Draw
import Camkit.Timestamp.Glyphs
import Camkit.Timestamp.Box
import Camkit.Timestamp.Lines
import Camkit.Timestamp.Doubling
import Camkit.Common.Chain
import Camkit.Common.Wakeup
import Camkit.Ilclient.Model.Events
import Camkit.Ilclient.Model.Wait
import Camkit.Ilclient.Filing
import Camkit.Ilclient.Cells
import Camkit.Ilclient.Waiting
import Camkit.Ilclient.Model.Buffers
import Camkit.Ilclient.Queues
import Camkit.Ilclient.Model.Ports
import Camkit.Ilclient.PortLists
import Camkit.Ilclient.Ports
import Camkit.Ilclient.Disabling
import Camkit.Common.Selection
import Camkit.Ilclient.Model.Transition
import Camkit.Ilclient.Transition
import Camkit.Ilcore.Model.Core
import Camkit.Ilcore.Sharing
import Camkit.Vpu.Life
import Camkit.Capture.Life
import Camkit.Common.Ladder
import Camkit.Ffmpeg.Model.Convert
import Camkit.Network.Model.Connection
import Camkit.Handles.Model.Plans
import Camkit.Handles.Debts
import Camkit.Ipu.Model.Convert
import Camkit.Ipu.Release
import Camkit.Common.Datagrams
import Camkit.RtpPack.Datagrams
import Camkit.Cktool.Model.Main
import Camkit.Cktool.Delivery
import Camkit.Cktool.Stages
import Camkit.Cktool.Arrivals
import Camkit.SimpleDemo.Model.Main
import Camkit.SimpleDemo.Delivery
import Camkit.Cktool.Model.Options
import Camkit.Cktool.Model.Pipeline
import Camkit.Cktool.Sizes
