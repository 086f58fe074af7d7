import RegionSync.Region.Path
import RegionSync.Text.Base64
import RegionSync.Text.Hex
import RegionSync.Text.Quoted

/-!
Why received data is refused. Readers refuse a whole input before anything of it takes effect.
-/

namespace RegionSync

inductive WireError
  | base64 (fault : Text.Base64.Fault)
  | unknownDiscriminator (byte : UInt8)
  | truncated (part : String)
  | badPadding
  | notUtf8
  | malformedLine (line : String)
  | malformedPayload (text : String)
  | invalidEntityName (text : String)
  | unexpectedName (name : String)
  | region (error : RegionError)
  deriving DecidableEq

namespace WireError

def message : WireError → String
  | base64 fault => s!"base64 decode failed: {fault.message}"
  | unknownDiscriminator b =>
    let digits := String.ofList (Text.Hex.ofByte b)
    s!"unknown digest frame discriminator 0x{digits}"
  | truncated part => s!"truncated frame: {part}"
  | badPadding => "non-zero byte in frame padding"
  | notUtf8 => "payload is not valid UTF-8"
  | malformedLine line => s!"malformed response line: {Text.quoted line}"
  | malformedPayload text => s!"malformed position payload: {Text.quoted text}"
  | invalidEntityName text => s!"invalid entity name: {Text.quoted text}"
  | unexpectedName name => s!"unexpected request name: {name}"
  | region error => error.message

end WireError

end RegionSync
