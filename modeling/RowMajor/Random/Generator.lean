/-! A stream cipher as a generator of random words: twelve rounds over sixteen
words of state, counting blocks. -/
namespace RowMajor

abbrev Words := Vector UInt32 16

namespace Words

def rotate (x turn : UInt32) : UInt32 :=
  (x <<< turn) ||| (x >>> (32 - turn))

/-- Adds word `b` to word `a`, mixes the sum into word `d` and turns it. -/
def mix (w : Words) (a b d : Fin 16) (turn : UInt32) : Words :=
  let sum := w[a] + w[b]
  (Vector.set w a sum).set d (rotate (w[d] ^^^ sum) turn)

def quarterRound (a b c d : Fin 16) (w : Words) : Words :=
  (((w.mix a b d 16).mix c d b 12).mix a b d 8).mix c d b 7

/-- One round down the columns, one along the diagonals. -/
def doubleRound (w : Words) : Words :=
  w |> quarterRound 0 4 8 12 |> quarterRound 1 5 9 13
    |> quarterRound 2 6 10 14 |> quarterRound 3 7 11 15
    |> quarterRound 0 5 10 15 |> quarterRound 1 6 11 12
    |> quarterRound 2 7 8 13 |> quarterRound 3 4 9 14

def scramble (w : Words) : Words :=
  Vector.zipWith (· + ·) w (Nat.repeat doubleRound 6 w)

end Words

structure Generator where
  key : Vector UInt32 8
  block : UInt64
  /-- The words of the current block that have not been used yet. -/
  pending : List UInt32

namespace Generator

/-- The key words that follow from a seed, and the state after them. -/
def keyWords : (count : Nat) → UInt64 → Vector UInt32 count × UInt64
  | 0, state => (#v[], state)
  | count + 1, state =>
    let (words, state) := keyWords count state
    let state := state * 6364136223846793005 + 11634580027462260723
    let folded := (((state >>> 18) ^^^ state) >>> 27).toUInt32
    let turn := (state >>> 59).toUInt32
    let word := (folded >>> turn) ||| (folded <<< ((32 - turn) &&& 31))
    (words.push word, state)

def ofSeed (seed : UInt64) : Generator :=
  ⟨(keyWords 8 seed).1, 0, []⟩

def blockWords (g : Generator) : Words :=
  let constants : Vector UInt32 4 := #v[0x61707865, 0x3320646e, 0x79622d32, 0x6b206574]
  let counter : Vector UInt32 4 := #v[g.block.toUInt32, (g.block >>> 32).toUInt32, 0, 0]
  constants ++ g.key ++ counter

def join (low high : UInt32) : UInt64 :=
  low.toUInt64 ||| (high.toUInt64 <<< 32)

/-- The next two words, the first one as the low half. Blocks hold an even number
of words, so a new block is only needed between two draws. -/
def next (g : Generator) : UInt64 × Generator :=
  match g.pending with
  | low :: high :: rest => (join low high, { g with pending := rest })
  | _ =>
    let words := g.blockWords.scramble
    (join words[0] words[1],
      { g with block := g.block + 1, pending := words.toList.drop 2 })

end Generator
end RowMajor
