namespace TableIntake.Text

/-! Code page 437, the encoding of names that do not declare another one. -/

def codePage437High : List Char :=
  "ÇüéâäàåçêëèïîìÄÅÉæÆôöòûùÿÖÜ¢£¥₧ƒáíóúñÑªº¿⌐¬½¼¡«»░▒▓│┤╡╢╖╕╣║╗╝╜╛┐└┴┬├─┼╞╟╚╔╩╦╠═╬╧╨╤╥╙╘╒╓╫╪┘┌█▄▌▐▀αßΓπΣσµτΦΘΩδ∞φε∩≡±≥≤⌠⌡÷≈°∙·√ⁿ²■\u00a0".toList

def codePage437Char (b : UInt8) : Char :=
  if b < 128 then Char.ofNat b.toNat
  else codePage437High.getD (b.toNat - 128) '\ufffd'

def ofCodePage437 (bytes : List UInt8) : String :=
  String.ofList (bytes.map codePage437Char)

end TableIntake.Text
