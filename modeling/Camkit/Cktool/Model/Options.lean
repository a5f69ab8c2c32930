import Camkit.Capture.Model.Open
import Camkit.Network.Model.Connection
import Camkit.RtpPack.Model.Packer
import Camkit.SoftConvert.Model.Convert
import Camkit.Timestamp.Model.Draw
import Camkit.Vpu.Model.Encoder
/-!
# The tool — its options

`main` of `cktool.c` up to the first `open`: the defaults, and the loop over
`getopt`. An option comes with its argument, read by `atoi` where it is a
number.
-/

namespace Camkit

namespace Cktool

open Capture (CapParam)
open Network (NetT)
open RtpPack (PacParam)
open SoftConvert (CvtParam v4l2PixFmtYuyv v4l2PixFmtYuv420)
open Timestamp (TmsParam)
open Vpu (EncParam)

/-- What `getopt` returns. -/
inductive Opt where
  /-- `?`, and whatever is not known -/
  | help
  | version
  | debug
  | stage (value : Int32)
  | input (name : String)
  | output (name : String)
  | address (serip : String)
  | port (value : Int32)
  | format (value : Int32)
  | width (value : Int32)
  | height (value : Int32)
  | bitrate (value : Int32)
  | fps (value : Int32)
  | chroma (value : Int32)
  | gop (value : Int32)
  deriving DecidableEq, Repr

/-- The variables the options set. -/
structure Settings where
  capp : CapParam
  cvtp : CvtParam
  encp : EncParam
  pacp : PacParam
  type : NetT
  serip : Option String
  serport : Int32
  tmsp : TmsParam
  stage : Int32
  outfile : Option String
  debug : Bool
  deriving DecidableEq

/-- The assignments of `-w`. -/
def Settings.setWidth (s : Settings) (value : Int32) : Settings :=
  { s with
    capp := { s.capp with width := value.toInt }
    cvtp := { s.cvtp with
      inwidth := value
      outwidth := value }
    encp := { s.encp with
      srcPicwidth := value.toInt
      encPicwidth := value.toInt }
    tmsp := { s.tmsp with videoWidth := value } }

/-- The assignments of `-h`. -/
def Settings.setHeight (s : Settings) (value : Int32) : Settings :=
  { s with
    capp := { s.capp with height := value.toInt }
    cvtp := { s.cvtp with
      inheight := value
      outheight := value }
    encp := { s.encp with
      srcPicheight := value.toInt
      encPicheight := value.toInt } }

/-- The `switch` over an option: what `main` returns, where it does. -/
def Settings.apply (s : Settings) : Opt → Except ℤ Settings
  | .help => .error 0
  | .version => .error 0
  | .debug => .ok { s with debug := true }
  | .stage value => .ok { s with stage := value }
  | .input name => .ok { s with capp := { s.capp with devName := name } }
  | .output name => .ok { s with outfile := some name }
  | .address serip => .ok { s with serip := some serip }
  | .port value => .ok { s with serport := value }
  | .format value =>
    .ok { s with capp := { s.capp with
      pixfmt := if value = 1 then v4l2PixFmtYuv420 else v4l2PixFmtYuyv } }
  | .width value => .ok (s.setWidth value)
  | .height value => .ok (s.setHeight value)
  | .bitrate value => .ok { s with encp := { s.encp with bitrate := value.toInt } }
  | .fps value =>
    .ok { s with
      capp := { s.capp with rate := value.toInt }
      encp := { s.encp with fps := value.toInt } }
  | .chroma value => .ok { s with encp := { s.encp with chromaInterleave := value.toInt } }
  | .gop value => .ok { s with encp := { s.encp with gop := value.toInt } }

end Cktool

end Camkit
