import LaneAuction.Bytes

/-!
# The curve edwards25519

Arithmetic modulo the prime `2 ^ 255 - 19` on natural numbers, and the group of the twisted Edwards
curve `-x² + y² = 1 + d x² y²` in extended coordinates. The addition law has no exceptional points,
so it also serves for doubling and for points of small order.
-/

namespace LaneAuction.Edwards25519

/-- The prime of the field. -/
def p : Nat := 0x7fffffff_ffffffff_ffffffff_ffffffff_ffffffff_ffffffff_ffffffff_ffffffed

/-- The prime order of the subgroup that the base point generates. -/
def order : Nat := 0x10000000_00000000_00000000_00000000_14def9de_a2f79cd6_5812631a_5cf5d3ed

/-! ### The field -/

/-- The product of two residues. -/
def mul (a b : Nat) : Nat := a * b % p

/-- The difference of two residues. -/
def sub (a b : Nat) : Nat := (a + p - b) % p

/-- The power of a residue, by squaring. -/
def pow (a n : Nat) : Nat :=
  if n = 0 then 1
  else
    let half := pow (mul a a) (n / 2)
    if n % 2 = 1 then mul a half else half

/-- The inverse of a residue; zero has none and gives zero. -/
def inverse (a : Nat) : Nat := pow a (p - 2)

/-- The constant of the curve: `-121665 / 121666`. -/
def d : Nat := mul (sub 0 121665) (inverse 121666)

/-- Twice the constant of the curve. -/
def d2 : Nat := 2 * d % p

/-- A square root of `-1`. -/
def sqrtMinusOne : Nat := pow 2 ((p - 1) / 4)

/-- The even square root of `u / v`, if there is one. -/
def sqrtRatio? (u v : Nat) : Option Nat :=
  -- If `u / v` is a square, `r` is a root of it or of its opposite, for `p` is 5 modulo 8.
  let v3 := mul (mul v v) v
  let v7 := mul (mul v3 v3) v
  let r := mul (mul u v3) (pow (mul u v7) ((p - 5) / 8))
  let check := mul v (mul r r)
  let root? :=
    if check = u then some r
    -- Here `r` squares to the opposite of the quotient.
    else if check = sub 0 u then some (mul r sqrtMinusOne)
    else none
  root?.map fun x => if x % 2 = 1 then sub 0 x else x

/-! ### The group -/

/-- A point in extended coordinates: `x = X / Z`, `y = Y / Z` and `x y = T / Z`. -/
structure Point where
  X : Nat
  Y : Nat
  Z : Nat
  T : Nat

namespace Point

/-- The neutral point. -/
def zero : Point := ⟨0, 1, 1, 0⟩

/-- The point with the given coordinates. -/
def ofAffine (x y : Nat) : Point := ⟨x, y, 1, mul x y⟩

/-- The sum of two points. -/
def add (P Q : Point) : Point :=
  let a := mul (sub P.Y P.X) (sub Q.Y Q.X)
  let b := mul (P.Y + P.X) (Q.Y + Q.X)
  let c := mul (mul P.T d2) Q.T
  let e := 2 * mul P.Z Q.Z
  let f := sub b a
  let g := (e + p - c) % p
  let h := e + c
  let k := b + a
  ⟨mul f g, mul h k, mul g h, mul f k⟩

/-- The opposite point. -/
def neg (P : Point) : Point := ⟨sub 0 P.X, P.Y, P.Z, sub 0 P.T⟩

/-- The `n`-fold sum of a point, by doubling. -/
def smul (n : Nat) (P : Point) : Point :=
  if n = 0 then zero
  else
    let half := smul (n / 2) (P.add P)
    if n % 2 = 1 then half.add P else half

/-- The base point: `y = 4 / 5`, with the even `x`. -/
def base : Point :=
  let y := mul 4 (inverse 5)
  let yy := mul y y
  match sqrtRatio? (sub yy 1) ((mul d yy + 1) % p) with
  | some x => ofAffine x y
  | none => zero

/-- The 32 bytes of a point: `y`, with the parity of `x` in the top bit. -/
def compress (P : Point) : Bytes :=
  let inverseZ := inverse P.Z
  let x := mul P.X inverseZ
  let y := mul P.Y inverseZ
  Bytes.ofNat 32 (y + (x % 2) <<< 255)

/-- The point that 32 bytes stand for, if `y` belongs to one. A `y` of `p` or more is reduced, and
the odd root of `x = 0` is taken for `0`. -/
def decompress? (bs : Bytes) : Option Point :=
  let n := Bytes.toNat bs
  -- The top bit is the parity of `x` and no part of `y`.
  let y := n % (1 <<< 255) % p
  let yy := mul y y
  (sqrtRatio? (sub yy 1) ((mul d yy + 1) % p)).map fun x =>
    ofAffine (if 1 <<< 255 ≤ n then sub 0 x else x) y

end Point

end LaneAuction.Edwards25519
