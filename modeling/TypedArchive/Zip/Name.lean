/-! Names of files outside UTF-8. -/

namespace TypedArchive.Zip

/-- The characters of code page 437 from byte 128 on. -/
def codePage437 : List Char :=
  ("ÇüéâäàåçêëèïîìÄÅÉæÆôöòûùÿÖÜ¢£¥₧ƒáíóúñÑªº¿⌐¬½¼¡«»░▒▓│┤╡╢╖╕╣║╗╝╜╛┐└┴┬├─┼╞╟╚╔╩╦╠═╬╧" ++
    "╨╤╥╙╘╒╓╫╪┘┌█▄▌▐▀αßΓπΣσµτΦΘΩδ∞φε∩≡±≥≤⌠⌡÷≈°∙·√ⁿ²■\u00A0").toList

def ofCodePage437 (bytes : List UInt8) : String :=
  String.ofList (bytes.map fun b =>
    if b.toNat < 128 then Char.ofNat b.toNat else (codePage437[b.toNat - 128]?).getD '\uFFFD')

end TypedArchive.Zip
