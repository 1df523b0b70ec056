/-! # Text

Text is ordered by its UTF-8 bytes, the shorter of two texts first where one begins the other.
-/

namespace Columnar.Text

def compare (a b : String) : Ordering :=
  Ord.compare a.toByteArray.data.toList b.toByteArray.data.toList

end Columnar.Text
