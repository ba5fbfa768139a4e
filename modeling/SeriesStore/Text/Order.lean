/-!
# The order of names

Names are ordered by their UTF-8 bytes.  The encoding keeps the order of code
points, so this is also the order in which the characters compare; stating it
on bytes ties it to what is written to a sidecar.
-/

namespace SeriesStore.Text

/-- The UTF-8 bytes of a text. -/
def utf8 (text : String) : List UInt8 :=
  text.toUTF8.data.toList

/-- Compares two texts by their UTF-8 bytes, the first difference deciding. -/
def compareUtf8 : String → String → Ordering :=
  compareOn utf8

/-- Different texts have different bytes. -/
theorem utf8_injective {first second : String} (same : utf8 first = utf8 second) :
    first = second :=
  String.toByteArray_inj.mp (ByteArray.ext (Array.toList_inj.mp same))

instance : Std.TransCmp compareUtf8 :=
  inferInstanceAs (Std.TransCmp (compareOn utf8))

instance : Std.LawfulEqCmp compareUtf8 where
  compare_self {text} := (Std.ReflCmp.compare_self : compare (utf8 text) (utf8 text) = .eq)
  eq_of_compare same := utf8_injective (Std.LawfulEqCmp.eq_of_compare same)

end SeriesStore.Text
