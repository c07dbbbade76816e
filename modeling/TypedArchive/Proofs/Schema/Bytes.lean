import TypedArchive.Schema.Graph

/-! Loading in a form that is quick to evaluate. Listing the bytes of a text looks each of them up
by its index, and the reader looks at each of them many times. -/

namespace TypedArchive

namespace Text

theorem toList_loop (bytes : ByteArray) (i : Nat) (front : List UInt8) :
    ByteArray.toList.loop bytes i front = front.reverse ++ bytes.data.toList.drop i := by
  have length : bytes.data.toList.length = bytes.size := Array.length_toList
  induction i, front using ByteArray.toList.loop.induct bytes with
  | case1 i front lt ih =>
    have lt' : i < bytes.data.toList.length := length ▸ lt
    have byte : bytes.get! i = bytes.data.toList[i] := getElem!_pos bytes.data i lt
    rw [ByteArray.toList.loop, if_pos lt, ih, byte, List.reverse_cons, List.append_assoc,
      List.drop_eq_getElem_cons lt']
    rfl
  | case2 i front past =>
    rw [ByteArray.toList.loop, if_neg past, List.drop_of_length_le (by omega), List.append_nil]

theorem toList_eq (bytes : ByteArray) : bytes.toList = bytes.data.toList :=
  toList_loop bytes 0 []

end Text

namespace Graph

/-- Reads a document from its bytes and places its schemas. -/
def readDocument (name : String) (bytes : List UInt8) : Load Unit :=
  match Json.parseBytes bytes with
  | .error e => fail (.ofJson name bytes e)
  | .ok v => do
    let root ← visit name (v.depth + 1) [] v
    modify fun g => { g with roots := g.roots.insert name root }

/-- Loads a bundle from the bytes that stand in the arrays of its texts. -/
def loadBytes (b : Bundle) : Except SchemaError Graph := do
  let (_, g) ← (b.documents.forM fun p => readDocument p.1 p.2.toUTF8.data.toList).run {}
  let nodes ← g.nodes.mapM g.link
  return { g with nodes }

theorem load_eq_loadBytes (b : Bundle) : Graph.load b = loadBytes b := by
  have document (name text : String) :
      loadDocument name text = readDocument name text.toUTF8.data.toList := by
    rw [loadDocument, Text.toList_eq]
    rfl
  simp only [load, loadBytes, document]

end Graph

end TypedArchive
