/-!
Sets of code points as ascending bounds: a run starts at every bound of even
index and ends before the next one.
-/
namespace RasterFallback.Text

/-- Whether `n` lies in a run: an odd number of bounds is at most `n`. -/
def insideRuns (bounds : List Nat) (n : Nat) : Bool :=
  bounds.countP (· ≤ n) % 2 == 1

@[simp] theorem insideRuns_nil (n : Nat) : insideRuns [] n = false := rfl

end RasterFallback.Text
