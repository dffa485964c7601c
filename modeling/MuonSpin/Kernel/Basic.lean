/-!
# Kernels

The relaxation functions a theory block can name.

* `ClosedForm`: the kernels given by a formula;
* `FieldFamily`: the Gaussian and the Lorentzian field distribution, each with a static and a
  dynamic Kubo–Toyabe kernel in a longitudinal field, which are tabulated;
* `Kernel`: all of them, and the functions supplied by the user;
* `Kernel.all`, `Kernel.signature`, `Kernel.search`: the listing of the kernels with their names,
  abbreviations, parameters and comments, and the look-up by name or abbreviation in any letter
  case;
* `Arity`: how many parameters a kernel takes; **a fixed number may be followed by a time shift**.
-/

namespace MuonSpin

/-- The kernels given by a formula. -/
inductive ClosedForm where
  | constant
  | asymmetry
  | exponential
  | stretchedExponential
  | gaussian
  | gaussKuboToyabe
  | lorentzKuboToyabe
  | combinedKuboToyabe
  | stretchedKuboToyabe
  | spinGlass
  | anisotropicHyperfine
  | abragam
  | internalField
  | internalFieldGauss
  | internalFieldLorentz
  | precession
  | besselPrecession
  | internalBessel
  | skewedGaussian
  | staticNoakesKalvius
  | staticNoakesKalviusTransverse
  | dynamicNoakesKalvius
  | dynamicNoakesKalviusTransverse
  | negativeMuon
  | fluorineMuonFluorine
  | polynomial
  deriving DecidableEq

/-- The distribution of the local fields. -/
inductive FieldFamily where
  | gauss
  | lorentz
  deriving DecidableEq

/-- What a factor of a theory can be. -/
inductive Kernel where
  /-- A formula. -/
  | closed (form : ClosedForm)
  /-- Static Kubo–Toyabe relaxation in a longitudinal field. -/
  | static (family : FieldFamily)
  /-- Dynamic Kubo–Toyabe relaxation in a longitudinal field. -/
  | dynamic (family : FieldFamily)
  /-- A function supplied by the user. -/
  | user
  deriving DecidableEq

/-! ## Numbers of parameters -/

/-- How many parameters a kernel takes. -/
inductive Arity where
  /-- So many, or one more for a time shift. -/
  | exactly (n : Nat)
  | atLeast (n : Nat)
  deriving DecidableEq

namespace Arity

/-- The least number of parameters. -/
def least : Arity → Nat
  | exactly n | atLeast n => n

def accepts : Arity → Nat → Bool
  | exactly n, count => count == n || count == n + 1
  | atLeast n, count => n ≤ count

/-- The accepted numbers in words. -/
def describe : Arity → String
  | exactly n => toString n ++ " or " ++ toString (n + 1)
  | atLeast n => "at least " ++ toString n

end Arity

/-! ## The listing -/

/-- What the listing says about a kernel. -/
structure Signature where
  name : String
  abbreviation : String
  arity : Arity
  /-- The parameters, in round brackets. -/
  comment : String

namespace Signature

/-- The comment of a line that ends in a time shift. -/
def shiftComment (comment : String) : String :=
  match comment.toList.reverse with
  | ')' :: rest => String.ofList rest.reverse ++ " tshift)"
  | _ => comment

end Signature

/-- Equality of texts up to the case of the letters `a` to `z`. -/
def equalUpToCase (a b : String) : Bool :=
  a.toList.map Char.toLower == b.toList.map Char.toLower

def ClosedForm.signature : ClosedForm → Signature
  | constant => ⟨"const", "c", .exactly 1, "(const)"⟩
  | asymmetry => ⟨"asymmetry", "a", .exactly 1, "(asymmetry)"⟩
  | exponential => ⟨"simplExpo", "se", .exactly 1, "(rate)"⟩
  | stretchedExponential => ⟨"generExpo", "ge", .exactly 2, "(rate exponent)"⟩
  | gaussian => ⟨"simpleGss", "sg", .exactly 1, "(rate)"⟩
  | gaussKuboToyabe => ⟨"statGssKT", "stg", .exactly 1, "(rate)"⟩
  | lorentzKuboToyabe => ⟨"statExpKT", "sekt", .exactly 1, "(rate)"⟩
  | combinedKuboToyabe => ⟨"combiLGKT", "lgkt", .exactly 2, "(lorentzRate gaussRate)"⟩
  | stretchedKuboToyabe => ⟨"strKT", "skt", .exactly 2, "(rate beta)"⟩
  | spinGlass => ⟨"spinGlass", "spg", .exactly 3, "(rate hopprate order)"⟩
  | anisotropicHyperfine => ⟨"rdAnisoHf", "rahf", .exactly 2, "(frequency rate)"⟩
  | abragam => ⟨"abragam", "ab", .exactly 2, "(rate hopprate)"⟩
  | internalField =>
    ⟨"internFld", "if", .exactly 5, "(fraction phase frequency Trate Lrate)"⟩
  | internalFieldGauss =>
    ⟨"internFldGK", "ifgk", .exactly 5, "(fraction frequency sigma lambda beta)"⟩
  | internalFieldLorentz => ⟨"internFldLL", "ifll", .exactly 4, "(fraction frequency a lambda)"⟩
  | precession => ⟨"TFieldCos", "tf", .exactly 2, "(phase frequency)"⟩
  | besselPrecession => ⟨"bessel", "b", .exactly 2, "(phase frequency)"⟩
  | internalBessel =>
    ⟨"internBsl", "ib", .exactly 5, "(fraction phase frequency Trate Lrate)"⟩
  | skewedGaussian => ⟨"skewedGss", "skg", .exactly 4, "(phase frequency rate_m rate_p)"⟩
  | staticNoakesKalvius => ⟨"staticNKZF", "snkzf", .exactly 2, "(damping_D0 R_b)"⟩
  | staticNoakesKalviusTransverse =>
    ⟨"staticNKTF", "snktf", .exactly 4, "(phase frequency damping_D0 R_b)"⟩
  | dynamicNoakesKalvius => ⟨"dynamicNKZF", "dnkzf", .exactly 3, "(damping_D0 R_b nu_c)"⟩
  | dynamicNoakesKalviusTransverse =>
    ⟨"dynamicNKTF", "dnktf", .exactly 5, "(phase frequency damping_D0 R_b nu_c)"⟩
  | negativeMuon => ⟨"muMinusExpTF", "mmsetf", .exactly 6, "(N0 tau A lambda phase nu)"⟩
  | fluorineMuonFluorine => ⟨"F_mu_F", "fmuf", .exactly 1, "(dipolar_frequency)"⟩
  | polynomial => ⟨"polynom", "p", .atLeast 2, "(tshift p0 p1 ... pn)"⟩

namespace Kernel

def signature : Kernel → Signature
  | closed form => form.signature
  | static .gauss => ⟨"statGssKTLF", "sgktlf", .exactly 2, "(frequency damping)"⟩
  | static .lorentz => ⟨"statExpKTLF", "sektlf", .exactly 2, "(frequency damping)"⟩
  | dynamic .gauss => ⟨"dynGssKTLF", "dgktlf", .exactly 3, "(frequency damping hopping-rate)"⟩
  | dynamic .lorentz => ⟨"dynExpKTLF", "dektlf", .exactly 3, "(frequency damping hopping-rate)"⟩
  | user => ⟨"userFcn", "u", .atLeast 2, "(lib fcn_name param_1 param_2 ... param_n)"⟩

def name (k : Kernel) : String := k.signature.name

def arity (k : Kernel) : Arity := k.signature.arity

/-- The kernel reads a table computed from its parameters. -/
def isTabulated : Kernel → Bool
  | static _ | dynamic _ => true
  | closed _ | user => false

/-- All kernels in the order of the listing. -/
def all : List Kernel :=
  [closed .constant, closed .asymmetry, closed .exponential, closed .stretchedExponential,
    closed .gaussian, closed .gaussKuboToyabe, static .gauss, dynamic .gauss,
    closed .lorentzKuboToyabe, static .lorentz, dynamic .lorentz, closed .combinedKuboToyabe,
    closed .stretchedKuboToyabe, closed .spinGlass, closed .anisotropicHyperfine, closed .abragam,
    closed .internalField, closed .internalFieldGauss, closed .internalFieldLorentz,
    closed .precession, closed .besselPrecession, closed .internalBessel, closed .skewedGaussian,
    closed .staticNoakesKalvius, closed .staticNoakesKalviusTransverse,
    closed .dynamicNoakesKalvius, closed .dynamicNoakesKalviusTransverse, closed .negativeMuon,
    closed .fluorineMuonFluorine, closed .polynomial, user]

/-- The kernel is called `word`, in full or abbreviated. -/
def isCalled (word : String) (k : Kernel) : Bool :=
  equalUpToCase k.signature.name word || equalUpToCase k.signature.abbreviation word

/-- The kernel of a name or an abbreviation. -/
def search (word : String) : Option Kernel := all.find? (isCalled word)

theorem mem_all (k : Kernel) : k ∈ all := by
  rcases k with form | family | family | _
  · cases form <;> decide
  · cases family <;> decide
  · cases family <;> decide
  · decide

end Kernel

end MuonSpin
