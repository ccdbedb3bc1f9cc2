import Seeing.Random
import Seeing.Random.Ziggurat

/-!
# The source of machine deviates

Machine numbers are drawn from a ChaCha stream.
-/

namespace Seeing

instance instRandomSourceFloat : RandomSource Float where
  State := ChaCha
  ofSeed := ChaCha.ofSeed
  word := ChaCha.next
  uniform := Ziggurat.uniform
  normal := Ziggurat.normal

end Seeing
