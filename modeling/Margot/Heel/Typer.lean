/-
The names of types and of identifiers.  The aliases of the fundamental types
are those of a 64-bit Linux, where `char` and `long long` are none of the
fixed-width types.
-/
import Margot.Library.Checked

namespace Margot.Heel

/-- The name is a c/c++ identifier. -/
def isValidIdentifier (name : Text) : Bool :=
  match name with
  | [] => false
  | first :: rest =>
      (first.isAlpha || first == '_') &&
        rest.all fun c => c.isAlphanum || c == '_'

/-- The spellings that are understood, with the name that the typer gives. -/
def knownTypes : List (String × String) :=
  [("short int", "int16_t"), ("short", "int16_t"),
    ("int8_t", "int8_t"), ("int16_t", "int16_t"),
    ("int32_t", "int32_t"), ("int64_t", "int64_t"),
    ("uint8_t", "uint8_t"), ("uint16_t", "uint16_t"),
    ("uint32_t", "uint32_t"), ("uint64_t", "uint64_t"),
    ("char", ""), ("int", "int32_t"),
    ("long int", "int64_t"), ("long", "int64_t"),
    ("long long int", ""), ("long long", ""),
    ("int_fast8_t", "int8_t"), ("int_fast16_t", "int64_t"),
    ("int_fast32_t", "int64_t"), ("int_fast64_t", "int64_t"),
    ("int_least8_t", "int8_t"), ("int_least16_t", "int16_t"),
    ("int_least32_t", "int32_t"), ("int_least64_t", "int64_t"),
    ("unsigned short int", "uint16_t"), ("unsigned short", "uint16_t"),
    ("short unsigned int", "uint16_t"), ("short unsigned", "uint16_t"),
    ("unsigned char", "uint8_t"), ("char unsigned", "uint8_t"),
    ("unsigned int", "uint32_t"), ("unsigned", "uint32_t"),
    ("unsigned long int", "uint64_t"), ("unsigned long", "uint64_t"),
    ("long unsigned int", "uint64_t"), ("long unsigned", "uint64_t"),
    ("unsigned long long int", ""), ("unsigned long long", ""),
    ("long long unsigned int", ""), ("long long unsigned", ""),
    ("long unsigned long", ""), ("long unsigned long int", ""),
    ("uint_fast8_t", "uint8_t"), ("uint_fast16_t", "uint64_t"),
    ("uint_fast32_t", "uint64_t"), ("uint_fast64_t", "uint64_t"),
    ("uint_least8_t", "uint8_t"), ("uint_least16_t", "uint16_t"),
    ("uint_least32_t", "uint32_t"), ("uint_least64_t", "uint64_t"),
    ("intmax_t", "int64_t"), ("intptr_t", "int64_t"),
    ("uintmax_t", "uint64_t"), ("uintptr_t", "uint64_t"),
    ("float", "float"), ("double", "double"),
    ("long double", "long double"), ("double long", "long double")]

/-- The type without extra spaces and without the `std` prefix. -/
def stripType (typeName : Text) : Text :=
  let stripped := trim (collapseSpaces typeName)
  if "std::".toList.isPrefixOf stripped then stripped.drop 5 else stripped

/-- The name of the type that `typeName` is an alias of. -/
def sanitizeType (typeName : Text) : Checked Text :=
  if stripType typeName = "string".toList then .ok "string".toList
  else
    match knownTypes.find? fun known =>
        known.1.toList = stripType typeName with
    | some known => .ok known.2.toList
    | none => .error "type sanitizer: unknown type".toList

def ctypePromotionsSigned : List String :=
  ["int8_t", "int16_t", "int32_t", "int64_t"]

def ctypePromotionsUnsigned : List String :=
  ["uint8_t", "uint16_t", "uint32_t", "uint64_t"]

def ctypePromotionsFp : List String := ["float", "double", "long double"]

/-- The position of a type in a category. -/
def promotion (category : List String) (name : Text) : Option Nat :=
  category.findIdx? fun known => known.toList = name

/-- Whether the first type is smaller than the second one, if the category
holds both. -/
def compareIn (category : List String) (a b : Text) : Option Bool :=
  match promotion category a, promotion category b with
  | some rankA, some rankB => some (rankA < rankB)
  | _, _ => none

/-- Whether the first type is smaller than the second one, `none` if they are
of different categories. -/
def typeSorter (a b : Text) : Checked (Option Bool) := do
  let unaliasedA ← sanitizeType a
  let unaliasedB ← sanitizeType b
  return (compareIn ctypePromotionsSigned unaliasedA unaliasedB).or
    ((compareIn ctypePromotionsUnsigned unaliasedA unaliasedB).or
      (compareIn ctypePromotionsFp unaliasedA unaliasedB))

theorem isValidIdentifier_ne_nil {name : Text}
    (hvalid : isValidIdentifier name = true) : name ≠ [] := by
  rintro rfl
  contradiction

/-- An identifier is made of letters, digits and underscores. -/
theorem mem_of_isValidIdentifier {name : Text}
    (hvalid : isValidIdentifier name = true) {c : Char} (hc : c ∈ name) :
    c.isAlphanum = true ∨ c = '_' := by
  cases name with
  | nil => contradiction
  | cons first rest =>
      simp only [isValidIdentifier, Bool.and_eq_true, Bool.or_eq_true,
        beq_iff_eq, List.all_eq_true] at hvalid
      rcases List.mem_cons.mp hc with rfl | hrest
      · rcases hvalid.1 with halpha | hunderscore
        · exact .inl (by simp [Char.isAlphanum, halpha])
        · exact .inr hunderscore
      · exact hvalid.2 c hrest

end Margot.Heel
