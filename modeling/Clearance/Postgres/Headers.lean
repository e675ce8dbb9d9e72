/-
# `Clearance.Postgres.Headers` — the headers of a dead letter as a JSON column

`encodeHeaders` and `decodeHeaders` of `internal/postgres`.  The column holds an
array of objects with a key and a value; `encoding/json` writes a byte slice in
base64, and `null` for nil.  An empty slice is nil here, since every value is a
copy made with `append([]byte(nil), value...)`.

A `jsonb` column returns the arrays and the texts it was given, and it refuses
texts with the character U+0000.
-/
import Clearance.Domain
import Clearance.Base64

namespace Clearance

/-- `storedHeader`, as JSON. -/
structure StoredHeader where
  key : String
  value : Option String
  deriving DecidableEq

/-- A byte slice as JSON: `null` for nil. -/
def encodeBytes (b : Bytes) : Option String :=
  if b = [] then none else some (String.ofList (Base64.encode b))

/-- A byte slice from JSON; the decoder passes over line breaks. -/
def decodeBytes : Option String → Except String Bytes
  | none => .ok []
  | some text =>
      match Base64.decode (text.toList.filter fun c => c != '\n' && c != '\r') with
      | none => .error "illegal base64 data"
      | some b => .ok b

def encodeHeader (h : String × Bytes) : StoredHeader := ⟨h.1, encodeBytes h.2⟩

def encodeHeaders (headers : List (String × Bytes)) : List StoredHeader :=
  headers.map encodeHeader

def decodeHeader (h : StoredHeader) : Except String (String × Bytes) :=
  match decodeBytes h.value with
  | .error e => .error e
  | .ok value => .ok (h.key, value)

def decodeHeaders (stored : List StoredHeader) : Except String (List (String × Bytes)) :=
  stored.mapM decodeHeader

/-- `jsonb` takes the text. -/
def jsonText (s : String) : Bool := s.toList.all fun c => c != '\x00'

theorem decodeBytes_encodeBytes (b : Bytes) : decodeBytes (encodeBytes b) = .ok b := by
  unfold encodeBytes
  split
  · next h => rw [h]; rfl
  · have hkeep : (Base64.encode b).filter (fun c => c != '\n' && c != '\r') = Base64.encode b :=
      List.filter_eq_self.mpr (Base64.encode_no_lineBreak b)
    simp only [decodeBytes, String.toList_ofList, hkeep, Base64.decode_encode]

theorem decodeHeader_encodeHeader (h : String × Bytes) :
    decodeHeader (encodeHeader h) = .ok h := by
  simp only [decodeHeader, encodeHeader, decodeBytes_encodeBytes]

/-- Headers come back as they went in. -/
theorem decodeHeaders_encodeHeaders (headers : List (String × Bytes)) :
    decodeHeaders (encodeHeaders headers) = .ok headers := by
  induction headers with
  | nil => rfl
  | cons h rest ih =>
      have ih : List.mapM decodeHeader (rest.map encodeHeader) = .ok rest := ih
      simp only [decodeHeaders, encodeHeaders, List.map_cons, List.mapM_cons,
        decodeHeader_encodeHeader, ih]
      rfl

end Clearance
