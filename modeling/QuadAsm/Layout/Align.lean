/-!
# Alignment

Rounding up to a multiple of a power of two, in the wrapping arithmetic of machine words.
-/

namespace QuadAsm.Layout

/-- The next multiple of `alignment`, which should be a power of two. -/
def align (addr alignment : Int64) : Int64 := (addr + alignment - 1) &&& ~~~(alignment - 1)

end QuadAsm.Layout
