import TypedArchive.Zip.Directory
import TypedArchive.Zip.Inflate

/-! The files of a container. -/

namespace TypedArchive.Zip

/-- Unpacks a file and checks it against its checksum. -/
def Header.content (h : Header) (bytes : List UInt8) : Except Damage (List UInt8) :=
  let stored := (bytes.drop h.position).take h.size
  let unpacked := if h.method = 0 then some stored else inflate? stored
  if h.encrypted || (h.method != 0 && h.method != 8) then .error .unreadable
  else
    match unpacked with
    | some content =>
      if (Zip.checksum content).toNat = h.checksum then .ok content else .error .corrupt
    | none => .error .corrupt

/-- Puts a header in the place of an earlier one of the same name, or else at the end. -/
def putHeader (h : Header) : List Header → List Header
  | [] => [h]
  | first :: rest => if first.name = h.name then h :: rest else first :: putHeader h rest

/-- The files of a container, in the order of its directory; of two with one name the second takes
the place of the first. -/
def unpack? (bytes : List UInt8) : Option (List StoredFile) :=
  (headers? bytes).map fun headers =>
    (headers.foldl (fun hs h => putHeader h hs) []).map fun h => ⟨h.name, h.content bytes⟩

end TypedArchive.Zip
