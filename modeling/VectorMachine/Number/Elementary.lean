import VectorMachine.Number.Convert
import VectorMachine.Text.Basic

/-!
# Elementary functions in double precision

The exponential and logarithm, the circular functions and their inverses, and
the power function.  Each one reduces its argument to a small interval and
evaluates a polynomial or a quotient of two polynomials there; the order of the
operations is part of the definition, because every one of them rounds.
-/

namespace VectorMachine
namespace Number

/-- The value of a polynomial, the highest coefficient first. -/
def polynomial : List Float -> Float -> Float
  | [], _ => 0
  | c :: rest, x => rest.foldl (fun sum coefficient => sum * x + coefficient) c

def pi : Float := 3.14159265358979323846264338327950288

def halfPi : Float := 1.57079632679489661923132169163975144

def quarterPi : Float := 0.785398163397448309615660845819875721

/-!
## Exponential and logarithm
-/

def ln2High : Float := 6.93147180369123816490e-01

def ln2Low : Float := 1.90821492927058770002e-10

/-- The integer nearest to a number of moderate size, a half going to the even
neighbour: at three halves of `2 ^ 52` the numbers are one apart. -/
def nearestEven (x : Float) : Int :=
  let far : Float := 6755399441055744
  truncToInt ((x + far) - far)

/-- One less than the exponential at twice the argument, from the same at the
argument: `2 e + e ^ 2`. -/
def doubleArgument (e : Float) : Float :=
  e * (e + 2)

/-- The exponential.  A multiple of `ln 2` is taken off, a sixteenth of the rest
goes through the Taylor series, and four doublings bring it back; every product
that is added to something is rounded together with the sum. -/
def exp (x : Float) : Float :=
  if x.isNaN then x
  else if x > 7.09782712893384e+02 then infinity
  else if x < -7.46e+02 then 0
  else
    let k := nearestEven (1.4426950408889634073599246810018920 * x)
    let less := -Float.ofInt k
    let r := mulAdd less 0.69314718055966295651160180568695068359375 x
    let r := mulAdd less 0.28235290563031577122588448175013436025525412068e-12 r
    let r := r * 0.0625
    let series :=
      [1.9841269841269841270e-4, 1.3888888888888888889e-3, 8.3333333333333333333e-3,
        4.1666666666666666667e-2, 1.6666666666666666667e-1, 0.5, 1].foldl
        (fun sum coefficient => mulAdd sum r coefficient) 2.4801587301587301587e-5
    let e := doubleArgument (doubleArgument (doubleArgument (r * series)))
    scale (mulAdd e (e + 2) 1) k

/-- The integer nearest to a number, a half going away from zero. -/
def nearestInt (x : Float) : Int :=
  if x < 0 then truncToInt (x - 0.5) else truncToInt (x + 0.5)

/-- The exponential of `high - low`, which lies within half of `ln 2` of zero,
times a power of two. -/
def expReduced (high low : Float) (power : Int) : Float :=
  let r := high - low
  let t := r * r
  let c := r - t * polynomial
    [4.13813679705723846039e-08, -1.65339022054652515390e-06, 6.61375632143793436117e-05,
      -2.77777777770155933842e-03, 1.66666666666666657415e-01] t
  scale (1 - ((low - (r * c) / (2 - c)) - high)) power

def exp2 (x : Float) : Float :=
  if x.isNaN then x
  else if x > 1.0239999999999999e+03 then infinity
  else if x < -1.0740e+03 then 0
  else
    let k := nearestInt x
    let t := x - Float.ofInt k
    expReduced (t * ln2High) (-t * ln2Low) k

def logPositive (x : Float) : Float :=
  let (fraction, power) := split x
  let (fraction, power) :=
    if fraction < 0.707106781186547524400844362104849039 then
      (fraction * 2, power - 1)
    else
      (fraction, power)
  let f := fraction - 1
  let k := Float.ofInt power
  let s := f / (2 + f)
  let s2 := s * s
  let s4 := s2 * s2
  let odd := s2 * polynomial
    [1.479819860511658591e-01, 1.818357216161805012e-01, 2.857142874366239149e-01,
      6.666666666666735130e-01] s4
  let even := s4 * polynomial
    [1.531383769920937332e-01, 2.222219843214978396e-01, 3.999999999940941908e-01] s4
  let r := odd + even
  let half := 0.5 * f * f
  k * ln2High - ((half - (s * (half + r) + k * ln2Low)) - f)

def log (x : Float) : Float :=
  if x.isNaN then x
  else if x < 0 then nan
  else if x == 0 then -infinity
  else if x.isInf then x
  else logPositive x

/-- The base-two logarithm, exact at the powers of two: the logarithm of the
fraction is added to the exponent. -/
def log2 (x : Float) : Float :=
  let (fraction, power) := split x
  if fraction == 0.5 then
    Float.ofInt (power - 1)
  else
    log fraction * 1.44269504088896340735992468100189214 + Float.ofInt power

/-!
## Circular functions
-/

def fourOverPiPlaces : Nat := 1280

def fourOverPi : Nat :=
  Text.valueOf (Nat.pow 2 64)
    [1,
      0x45f306dc9c882a53, 0xf84eafa3ea69bb81, 0xb6c52b3278872083, 0xfca2c757bd778ac3,
      0x6e48dc74849ba5c0, 0x0c925dd413a32439, 0xfc3bd63962534e7d, 0xd1046bea5d768909,
      0xd338e04d68befc82, 0x7323ac7306a673e9, 0x3908bf177bf25076, 0x3ff12fffbc0b301f,
      0xde5e2316b414da3e, 0xda6cfd9e4f96136e, 0x9e8c7ecd3cbfd45a, 0xea4f758fd7cbe2f6,
      0x7a0e73ef14a525d4, 0xd7f6bf623f1aba10, 0xac06608df8f6d757, 0xe19f784135e86c3b]

/-- The position in eighths of a turn, modulo a full turn, of the angle
`mantissa * 2 ^ exponent`, in units of `2 ^ -125`.  Digits of `4 / π` that only
count full turns are left out, and so are those that come too late to matter. -/
def turnPosition (mantissa : Nat) (exponent : Int) : Nat :=
  let digits := fourOverPi / Nat.pow 2 (fourOverPiPlaces - 189 - exponent).toNat % Nat.pow 2 192
  digits * mantissa / Nat.pow 2 64 % Nat.pow 2 128

/-- A fraction of an eighth of a turn, as a number, from its place in units of
`2 ^ -125`.  The first sixty-four bits are read as they stand.  When leading
zeros leave room behind them, the room is filled from the lowest sixty-four bits
of the place, whose first three are then read twice. -/
def fractionOfEighth (place : Nat) : Float :=
  let high := place / Nat.pow 2 61 % Nat.pow 2 64
  let low := place % Nat.pow 2 64
  let cut : Nat := 64 - high.log2
  let kept := (high * Nat.pow 2 cut + low / Nat.pow 2 (64 - cut)) / Nat.pow 2 12
  scale (Float.ofNat kept) (-52 - (cut : Int))

def reductionLimit : Float := 536870912

/-- Reduce a non-negative angle: the even octant it is nearest to, modulo a full
turn, and the angle that remains, at most an eighth of a turn either way. -/
def reduceAngle (x : Float) : Nat × Float :=
  if x < reductionLimit then
    let octant := (truncToInt (x * 1.27323954473516268615107010698140931)).toNat
    let octant := if octant % 2 = 1 then octant + 1 else octant
    let y := Float.ofNat octant
    let rest :=
      ((x - y * 7.85398125648498535156e-1) - y * 3.77489470793079817668e-8)
        - y * 2.69515142907905952645e-15
    (octant % 8, rest)
  else
    match x.toModel.unpack with
    | .finite _ mantissa exponent _ =>
        let width : Nat := 52 - mantissa.log2
        let place := turnPosition (mantissa * Nat.pow 2 width) (exponent - (width : Int))
        let octant := place / Nat.pow 2 125
        let fraction := fractionOfEighth place
        if octant % 2 = 1 then
          ((octant + 1) % 8, (fraction - 1) * quarterPi)
        else
          (octant, fraction * quarterPi)
    | _ => (0, nan)

def sinReduced (z : Float) : Float :=
  let zz := z * z
  z + z * zz * polynomial
    [1.58962301576546568060e-10, -2.50507477628578072866e-8, 2.75573136213857245213e-6,
      -1.98412698295895385996e-4, 8.33333333332211858878e-3, -1.66666666666666307295e-1] zz

def cosReduced (z : Float) : Float :=
  let zz := z * z
  1 - 0.5 * zz + zz * zz * polynomial
    [-1.13585365213876817300e-11, 2.08757008419747316778e-9, -2.75573141792967388112e-7,
      2.48015872888517045348e-5, -1.38888888888730564116e-3, 4.16666666666665929218e-2] zz

def sin (x : Float) : Float :=
  if x == 0 || x.isNaN then x
  else if x.isInf then nan
  else
    let (octant, z) := reduceAngle x.abs
    let quadrant := octant % 4
    let magnitude := if quadrant = 2 then cosReduced z else sinReduced z
    if (octant ≥ 4) != (x < 0) then -magnitude else magnitude

def cos (x : Float) : Float :=
  if x.isNaN || x.isInf then nan
  else
    let (octant, z) := reduceAngle x.abs
    let magnitude := if octant % 4 = 2 then sinReduced z else cosReduced z
    if (octant = 2) || (octant = 4) then -magnitude else magnitude

def tan (x : Float) : Float :=
  if x == 0 || x.isNaN then x
  else if x.isInf then nan
  else
    let (octant, z) := reduceAngle x.abs
    let zz := z * z
    let tangent :=
      if zz > 1e-14 then
        z + z * (zz * polynomial
            [-1.30936939181383734205e4, 1.15351664838587416140e6, -1.79565251976484877988e7] zz
          / polynomial
            [1, 1.36812963470692954678e4, -1.32089234440210967447e6, 2.50083801823357915839e7,
              -5.38695755929454629881e7] zz)
      else z
    let tangent := if octant % 4 = 2 then -1 / tangent else tangent
    if x < 0 then -tangent else tangent

/-!
## Inverse circular functions
-/

/-- The arc tangent between zero and about two thirds. -/
def atanReduced (x : Float) : Float :=
  let z := x * x
  let z := z * polynomial
      [-8.750608600031904122785e-01, -1.615753718733365076637e+01, -7.500855792314704667340e+01,
        -1.228866684490136173410e+02, -6.485021904942025371773e+01] z
    / polynomial
      [1, 2.485846490142306297962e+01, 1.650270098316988542046e+02, 4.328810604912902668951e+02,
        4.853903996359136964868e+02, 1.945506571482613964425e+02] z
  x * z + x

/-- The arc tangent of a positive number, reduced by the tangents of an eighth
and three sixteenths of a turn. -/
def atanPositive (x : Float) : Float :=
  let more := 6.123233995736765886130e-17
  if x ≤ 0.66 then atanReduced x
  else if x > 2.41421356237309504880 then halfPi - atanReduced (1 / x) + more
  else quarterPi + atanReduced ((x - 1) / (x + 1)) + 0.5 * more

def atan (x : Float) : Float :=
  if x == 0 then x
  else if x > 0 then atanPositive x
  else -atanPositive (-x)

def asin (x : Float) : Float :=
  if x == 0 then x
  else
    let y := x.abs
    if y > 1 then nan
    else
      let root := (1 - y * y).sqrt
      let angle := if y > 0.7 then halfPi - atanPositive (root / y) else atanPositive (y / root)
      if x < 0 then -angle else angle

def acos (x : Float) : Float :=
  halfPi - asin x

def atan2 (y x : Float) : Float :=
  if y.isNaN || x.isNaN then nan
  else if y == 0 then
    withSignOf (if isNegative x then pi else 0) y
  else if x == 0 then
    withSignOf halfPi y
  else if x.isInf then
    if x > 0 then
      withSignOf (if y.isInf then quarterPi else 0) y
    else
      withSignOf (if y.isInf then 2.35619449019234492884698253745962716 else pi) y
  else if y.isInf then
    withSignOf halfPi y
  else
    let q := atan (y / x)
    if x < 0 then
      if q ≤ 0 then q + pi else q - pi
    else q

/-!
## Powers
-/

/-- A number held as a fraction and an exponent, so that products of many
factors neither overflow nor underflow. -/
structure Scaled where
  fraction : Float
  power : Int

def Scaled.certain (power : Int) : Bool :=
  power < -4096 || 4096 < power

def Scaled.mulPow (total base : Scaled) (n : Nat) : Scaled :=
  if h : n = 0 then total
  else if certain base.power then
    { total with power := total.power + base.power }
  else
    let next : Scaled :=
      if n % 2 = 1 then
        { fraction := total.fraction * base.fraction, power := total.power + base.power }
      else total
    let square := base.fraction * base.fraction
    let base : Scaled :=
      if square < 0.5 then
        { fraction := square + square, power := base.power * 2 - 1 }
      else
        { fraction := square, power := base.power * 2 }
    mulPow next base (n / 2)
termination_by n
decreasing_by omega

def isOddInteger (x : Float) : Bool :=
  match toInt? x with
  | some n => n % 2 == 1
  | none => false

def powFinite (x y : Float) : Float :=
  let size := y.abs
  let whole := trunc size
  let part := size - whole
  if part != 0 && x < 0 then nan
  else if whole ≥ 9223372036854775808 then
    if x == -1 then 1
    else if (x.abs < 1) == (y > 0) then 0
    else infinity
  else
    let (part, whole) := if part > 0.5 then (part - 1, whole + 1) else (part, whole)
    let start : Float := if part != 0 then exp (part * log x) else 1
    let (fraction, power) := split x
    let result := Scaled.mulPow ⟨start, 0⟩ ⟨fraction, power⟩ (truncToInt whole).toNat
    if y < 0 then scale (1 / result.fraction) (-result.power)
    else scale result.fraction result.power

def pow (x y : Float) : Float :=
  if y == 0 || x == 1 then 1
  else if y == 1 then x
  else if x.isNaN || y.isNaN then nan
  else if x == 0 then
    let magnitude := if y < 0 then infinity else 0
    if isNegative x && isOddInteger y then -magnitude else magnitude
  else if y.isInf then
    if x == -1 then 1
    else if (x.abs < 1) == (y > 0) then 0
    else infinity
  else if x.isInf then
    let magnitude := if y < 0 then 0 else infinity
    if x < 0 && isOddInteger y then -magnitude else magnitude
  else if y == 0.5 then x.sqrt
  else if y == -0.5 then 1 / x.sqrt
  else powFinite x y

end Number
end VectorMachine
