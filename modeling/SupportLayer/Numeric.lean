/-
# Numeric aliases

Generated code names the fixed-width numbers by short aliases. This table is the single
source of those names, of the older long names that stand for them, and of the C types
behind them; it lists the aliases in the order in which the header declares them.

Key definitions: `Numeric.Alias`, `Numeric.aliases`, `Numeric.lookup?`, `Numeric.ofWidth?`.
-/

namespace SupportLayer.Numeric

/-- The three kinds of number. -/
inductive Kind where
  | signed
  | unsigned
  | float
  deriving DecidableEq, Repr

/-- A short name, the long name that older code uses, the C type, its width and kind. -/
structure Alias where
  name : String
  legacyName : String
  cType : String
  bits : Nat
  kind : Kind
  deriving DecidableEq, Repr

/-- Every alias. The floats are `float` and `double`, never the platform's `float_t`. -/
def aliases : List Alias := [
  ⟨"i8", "int8", "int8_t", 8, .signed⟩,
  ⟨"i16", "int16", "int16_t", 16, .signed⟩,
  ⟨"i32", "int32", "int32_t", 32, .signed⟩,
  ⟨"i64", "int64", "int64_t", 64, .signed⟩,
  ⟨"u8", "uint8", "uint8_t", 8, .unsigned⟩,
  ⟨"u16", "uint16", "uint16_t", 16, .unsigned⟩,
  ⟨"u32", "uint32", "uint32_t", 32, .unsigned⟩,
  ⟨"u64", "uint64", "uint64_t", 64, .unsigned⟩,
  ⟨"f32", "float32", "float", 32, .float⟩,
  ⟨"f64", "float64", "double", 64, .float⟩]

/-- The name that generated code uses for the string handle. -/
def stringAlias : String := "string"

/-- The alias with a short or a long name. -/
def lookup? (name : String) : Option Alias :=
  aliases.find? fun a => a.name = name || a.legacyName = name

/-- The alias of a kind and width. -/
def ofWidth? (kind : Kind) (bits : Nat) : Option Alias :=
  aliases.find? fun a => a.kind = kind && a.bits = bits

end SupportLayer.Numeric
