/-! Numbers drawn one after the other from a state. -/
namespace RowMajor

structure Source (σ α : Type) where
  draw : σ → α × σ

namespace Source
variable {σ α : Type}

/-- As many draws as asked for, the first draw first. -/
def vector (source : Source σ α) : (n : Nat) → σ → Vector α n × σ
  | 0, state => (#v[], state)
  | n + 1, state =>
    let (drawn, state) := source.vector n state
    let (x, state) := source.draw state
    (drawn.push x, state)

end Source
end RowMajor
