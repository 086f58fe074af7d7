import RegionSync.Wire

/-!
Digest frames: what a requester holds for a region, or for several regions below one, as bytes.

    whole region:     0x31, digest, zeros
    several regions:  0x30, { length, octants, digest } ..., zeros

A length is never zero, so a zero byte in its place ends the entries. A digest is four bytes, the
low one first. Zeros fill the frame up to a multiple of three bytes, so its Base64 text has no
padding.
-/

namespace RegionSync

/-- The digests that a request claims. -/
inductive Frame
  /-- The digest of the request's own region. -/
  | whole (digest : UInt32)
  /-- The digests of regions below the request's region, by their paths from there. -/
  | parts (entries : List (RegionPath × UInt32))
  deriving DecidableEq

namespace Frame

def wholeMark : UInt8 := 0x31

def partsMark : UInt8 := 0x30

def encodeEntry (entry : RegionPath × UInt32) : Bytes :=
  UInt8.ofNat entry.1.depth :: entry.1.digits.map (fun i => UInt8.ofNat i.val) ++
    LowFirst.bytes 4 entry.2.toNat

/-- The bytes and zeros up to a multiple of three. -/
def fill (bytes : Bytes) : Bytes :=
  bytes ++ List.replicate ((3 - bytes.length % 3) % 3) 0

def encode : Frame → Bytes
  | whole digest => fill (wholeMark :: LowFirst.bytes 4 digest.toNat)
  | parts entries => fill (partsMark :: entries.flatMap encodeEntry)

def digestOf (bytes : Bytes) : UInt32 :=
  UInt32.ofNat (LowFirst.number bytes)

def allZero (bytes : Bytes) : Bool :=
  bytes.all (· == 0)

/-- The entries up to the zero length that ends them or the end of the bytes. -/
def decodeEntries : Bytes → Except WireError (List (RegionPath × UInt32))
  | [] => .ok []
  | length :: tail =>
    if length = 0 then if allZero tail then .ok [] else .error .badPadding
    else
      let n := length.toNat
      if tail.length < n + 4 then .error (.truncated "part entry")
      else
        match RegionPath.ofBytes (tail.take n) with
        | .error e => .error (.region e)
        | .ok path =>
          match decodeEntries (tail.drop (n + 4)) with
          | .error e => .error e
          | .ok entries => .ok ((path, digestOf ((tail.drop n).take 4)) :: entries)
  termination_by bytes => bytes.length
  decreasing_by simp only [List.length_drop, List.length_cons]; omega

def decode : Bytes → Except WireError Frame
  | [] => .error (.truncated "empty frame")
  | mark :: rest =>
    if mark = wholeMark then
      if rest.length < 4 then .error (.truncated "whole digest")
      else if allZero (rest.drop 4) then .ok (.whole (digestOf (rest.take 4)))
      else .error .badPadding
    else if mark = partsMark then (decodeEntries rest).map .parts
    else .error (.unknownDiscriminator mark)

/-- The frame as one component of a name: Base64, with an underscore for the slash. -/
def component (f : Frame) : String :=
  String.ofList ((Text.Base64.encode f.encode).map fun c => if c = '/' then '_' else c)

def ofComponent (s : String) : Except WireError Frame :=
  let text := s.toList.map fun c => if c = '_' then '/' else c
  match Text.Base64.decode (Text.encode text) with
  | .error fault => .error (.base64 fault)
  | .ok bytes => decode bytes

end Frame

end RegionSync
