import RoadTrip.Random.Source

/-!
# ChaCha as a source of words

The keystream of the ChaCha cipher with 20 rounds, read as one stream of 32-bit words: its blocks
are numbered from 0 by a 64-bit counter, the stream number is 0. A half word is one word of the
stream, a full word takes two, the lower half first.
-/

namespace RoadTrip

namespace ChaCha

@[inline] def rotate (x : UInt32) (amount : UInt32) : UInt32 :=
  (x <<< amount) ||| (x >>> (32 - amount))

/-- Four words, one for each column of a block. -/
structure Row where
  first : UInt32
  second : UInt32
  third : UInt32
  fourth : UInt32

namespace Row

/-- Combine two rows column by column. -/
@[inline] def zipWith (f : UInt32 → UInt32 → UInt32) (r s : Row) : Row :=
  ⟨f r.first s.first, f r.second s.second, f r.third s.third, f r.fourth s.fourth⟩

@[inline] def add (r s : Row) : Row := zipWith (· + ·) r s

/-- Add a row to another bit by bit without carry and rotate the words of the result. -/
@[inline] def blend (r s : Row) (amount : UInt32) : Row :=
  zipWith (fun x y => rotate (x ^^^ y) amount) r s

/-- The row with its columns moved one place to the left. -/
@[inline] def shift (r : Row) : Row := ⟨r.second, r.third, r.fourth, r.first⟩

def words (r : Row) : List UInt32 := [r.first, r.second, r.third, r.fourth]

end Row

/-- The four rows that a block is computed on. -/
structure State where
  a : Row
  b : Row
  c : Row
  d : Row

namespace State

@[inline] def mix (s : State) : State :=
  let a := s.a.add s.b
  let d := s.d.blend a 16
  let c := s.c.add d
  let b := s.b.blend c 12
  let a := a.add b
  let d := d.blend a 8
  let c := c.add d
  let b := b.blend c 7
  ⟨a, b, c, d⟩

/-- Two rounds: the columns are mixed, then the diagonals, which are columns while the rows are
shifted against one another. -/
def doubleRound (s : State) : State :=
  let s := s.mix
  let s := mix ⟨s.a, s.b.shift, s.c.shift.shift, s.d.shift.shift.shift⟩
  ⟨s.a, s.b.shift.shift.shift, s.c.shift.shift, s.d.shift⟩

def add (s t : State) : State := ⟨s.a.add t.a, s.b.add t.b, s.c.add t.c, s.d.add t.d⟩

def words (s : State) : Vector UInt32 16 :=
  ⟨(s.a.words ++ s.b.words ++ s.c.words ++ s.d.words).toArray, rfl⟩

end State

/-- The state that a block starts from: constants, key, block number, stream number. -/
def initial (key : Vector UInt32 8) (block : Nat) : State where
  a := ⟨0x61707865, 0x3320646e, 0x79622d32, 0x6b206574⟩
  b := ⟨key[0], key[1], key[2], key[3]⟩
  c := ⟨key[4], key[5], key[6], key[7]⟩
  d := ⟨UInt32.ofNat block, UInt32.ofNat (block / 4294967296), 0, 0⟩

def block (key : Vector UInt32 8) (number : Nat) : Vector UInt32 16 :=
  let start := initial key number
  ((Nat.repeat State.doubleRound 10 start).add start).words

end ChaCha

/-- A place in a keystream. The block that it lies in is kept. -/
structure ChaCha where
  key : Vector UInt32 8
  position : Nat
  current : Vector UInt32 16

namespace ChaCha

/-- The number of words in a keystream: there are 16 in a block, and blocks are counted with 64
bits. -/
def streamLength : Nat := 295147905179352825856

def ofKey (key : Vector UInt32 8) : ChaCha := ⟨key, 0, .replicate 16 0⟩

/-- The next word of the stream. A new block begins every 16 words. -/
def next? (s : ChaCha) : Option (UInt32 × ChaCha) :=
  if s.position < streamLength then
    let current := if s.position % 16 = 0 then block s.key (s.position / 16) else s.current
    some (current.get ⟨s.position % 16, Nat.mod_lt _ (by decide)⟩,
      { s with position := s.position + 1, current })
  else
    none

/-- Two words of the stream as one, the lower half first. -/
def pair? (s : ChaCha) : Option (Fin Width.full.words × ChaCha) :=
  s.next?.bind fun (low, t) => t.next?.map fun (high, u) =>
    (⟨low.toNat + high.toNat * 4294967296, by
      have := low.toNat_lt
      have := high.toNat_lt
      simp only [Width.words]
      omega⟩, u)

def word : (width : Width) → ChaCha → Option (Fin width.words × ChaCha)
  | .half, s => s.next?.map fun (w, t) => (⟨w.toNat, w.toNat_lt⟩, t)
  | .full, s => s.pair?

theorem next?_lt {s t : ChaCha} {w : UInt32} (h : s.next? = some (w, t)) :
    streamLength - t.position < streamLength - s.position := by
  unfold next? at h
  split at h
  · obtain ⟨rfl, rfl⟩ := Prod.mk.inj (Option.some.inj h)
    simp only
    omega
  · cases h

instance : Source ChaCha where
  word := ChaCha.word
  remaining s := streamLength - s.position
  remaining_lt := by
    intro width s t v h
    cases width with
    | half =>
      obtain ⟨⟨w, u⟩, hs, hw⟩ := Option.map_eq_some_iff.1 h
      obtain ⟨rfl, rfl⟩ := Prod.mk.inj hw
      exact next?_lt hs
    | full =>
      obtain ⟨⟨low, u⟩, hs, hu⟩ := Option.bind_eq_some_iff.1 h
      obtain ⟨⟨high, x⟩, ht, hw⟩ := Option.map_eq_some_iff.1 hu
      obtain ⟨rfl, rfl⟩ := Prod.mk.inj hw
      exact Nat.lt_trans (next?_lt ht) (next?_lt hs)

/-! ## Keys from seeds -/

/-- One step of the generator that spreads a seed over a key. -/
def spread (s : UInt64) : UInt64 := s * 6364136223846793005 + 11634580027462260723

/-- The word that a step puts out: the upper bits folded and rotated by the topmost ones. -/
def spreadWord (s : UInt64) : UInt32 :=
  let x := (((s >>> 18) ^^^ s) >>> 27).toUInt32
  let r := (s >>> 59).toUInt32
  (x >>> r) ||| (x <<< ((32 - r) % 32))

def keyOfSeed (seed : UInt64) : Vector UInt32 8 :=
  .ofFn fun i => spreadWord (Nat.repeat spread (i.val + 1) seed)

def ofSeed (seed : UInt64) : ChaCha := ofKey (keyOfSeed seed)

end ChaCha

end RoadTrip
