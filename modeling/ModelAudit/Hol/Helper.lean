import ModelAudit.Text.Basic

/-!
# Helper definitions

Where SMT-LIB and HOL disagree, for instance on division by zero, a theory
refers to a definition of its own. A definition may refer to others, which come
before it in the order of `Helper.all`.
-/

namespace ModelAudit

inductive Helper
  | division
  | modulus
  | bvudiv
  | bvurem
  | bvshl
  | bvlshr
  | bvashr
  | bvsgt
  | bvsge
  | substring
  | stringAt
  | prefixOf
  | suffixOf
  | stringContains
  | stringFind
  | indexOf
  | replacement
  | stringLess
  | stringAtMost
  | stringToInt
  | digits
  | stringFromInt
deriving DecidableEq

namespace Helper

/-- All helpers, each after those that it refers to. -/
def all : List Helper :=
  [.division, .modulus, .bvudiv, .bvurem, .bvshl, .bvlshr, .bvashr,
    .bvsgt, .bvsge, .substring, .stringAt, .prefixOf, .suffixOf,
    .stringContains, .stringFind, .indexOf, .replacement, .stringLess,
    .stringAtMost, .stringToInt, .digits, .stringFromInt]

def name : Helper → Text
  | division => "smt_div"
  | modulus => "smt_mod"
  | bvudiv => "smt_bvudiv"
  | bvurem => "smt_bvurem"
  | bvshl => "smt_bvshl"
  | bvlshr => "smt_bvlshr"
  | bvashr => "smt_bvashr"
  | bvsgt => "smt_bvsgt"
  | bvsge => "smt_bvsge"
  | substring => "smt_str_substr"
  | stringAt => "smt_str_at"
  | prefixOf => "smt_str_prefixof"
  | suffixOf => "smt_str_suffixof"
  | stringContains => "smt_str_contains"
  | stringFind => "smt_str_find"
  | indexOf => "smt_str_indexof"
  | replacement => "smt_str_replace"
  | stringLess => "smt_str_lt"
  | stringAtMost => "smt_str_le"
  | stringToInt => "smt_str_to_int"
  | digits => "smt_digits"
  | stringFromInt => "smt_str_from_int"

/-- The helpers that the definition refers to directly. -/
def dependencies : Helper → List Helper
  | modulus => [.division]
  | stringAt => [.substring]
  | stringContains => [.prefixOf]
  | stringFind => [.prefixOf]
  | indexOf => [.stringFind]
  | replacement => [.prefixOf]
  | stringAtMost => [.stringLess]
  | stringFromInt => [.digits]
  | _ => []

def definitionText : Helper → Text
  | division => r#"definition smt_div :: "int \<Rightarrow> int \<Rightarrow> int" where
  "smt_div a b = (if 0 \<le> b then a div b else - (a div (- b)))""#
  | modulus => r#"definition smt_mod :: "int \<Rightarrow> int \<Rightarrow> int" where
  "smt_mod a b = a - b * smt_div a b""#
  | bvudiv => r#"definition smt_bvudiv :: "'a::len word \<Rightarrow> 'a word \<Rightarrow> 'a word" where
  "smt_bvudiv x y = (if y = 0 then - 1 else x div y)""#
  | bvurem => r#"definition smt_bvurem :: "'a::len word \<Rightarrow> 'a word \<Rightarrow> 'a word" where
  "smt_bvurem x y = (if y = 0 then x else x mod y)""#
  | bvshl => r#"definition smt_bvshl :: "'a::len word \<Rightarrow> 'a word \<Rightarrow> 'a word" where
  "smt_bvshl x y = push_bit (unat y) x""#
  | bvlshr => r#"definition smt_bvlshr :: "'a::len word \<Rightarrow> 'a word \<Rightarrow> 'a word" where
  "smt_bvlshr x y = drop_bit (unat y) x""#
  | bvashr => r#"definition smt_bvashr :: "'a::len word \<Rightarrow> 'a word \<Rightarrow> 'a word" where
  "smt_bvashr x y = signed_drop_bit (unat y) x""#
  | bvsgt => r#"definition smt_bvsgt :: "'a::len word \<Rightarrow> 'a word \<Rightarrow> bool" where
  "smt_bvsgt x y = word_sless y x""#
  | bvsge => r#"definition smt_bvsge :: "'a::len word \<Rightarrow> 'a word \<Rightarrow> bool" where
  "smt_bvsge x y = word_sle y x""#
  | substring => r#"definition smt_str_substr :: "string \<Rightarrow> int \<Rightarrow> int \<Rightarrow> string" where
  "smt_str_substr s i n = (if 0 \<le> i \<and> i < int (length s) \<and> 0 < n then take (nat n) (drop (nat i) s) else [])""#
  | stringAt => r#"definition smt_str_at :: "string \<Rightarrow> int \<Rightarrow> string" where
  "smt_str_at s i = smt_str_substr s i 1""#
  | prefixOf => r#"definition smt_str_prefixof :: "string \<Rightarrow> string \<Rightarrow> bool" where
  "smt_str_prefixof s t = (take (length s) t = s)""#
  | suffixOf => r#"definition smt_str_suffixof :: "string \<Rightarrow> string \<Rightarrow> bool" where
  "smt_str_suffixof s t = (drop (length t - length s) t = s)""#
  | stringContains => r#"fun smt_str_contains :: "string \<Rightarrow> string \<Rightarrow> bool" where
  "smt_str_contains [] t = (t = [])"
| "smt_str_contains (c # s) t = (smt_str_prefixof t (c # s) \<or> smt_str_contains s t)""#
  | stringFind => r#"fun smt_str_find :: "string \<Rightarrow> string \<Rightarrow> int \<Rightarrow> int" where
  "smt_str_find [] t n = (if t = [] then n else - 1)"
| "smt_str_find (c # s) t n = (if smt_str_prefixof t (c # s) then n else smt_str_find s t (n + 1))""#
  | indexOf => r#"definition smt_str_indexof :: "string \<Rightarrow> string \<Rightarrow> int \<Rightarrow> int" where
  "smt_str_indexof s t i = (if 0 \<le> i \<and> i \<le> int (length s) then smt_str_find (drop (nat i) s) t i else - 1)""#
  | replacement => r#"fun smt_str_replace :: "string \<Rightarrow> string \<Rightarrow> string \<Rightarrow> string" where
  "smt_str_replace [] t u = (if t = [] then u else [])"
| "smt_str_replace (c # s) t u = (if smt_str_prefixof t (c # s) then u @ drop (length t) (c # s) else c # smt_str_replace s t u)""#
  | stringLess => r#"fun smt_str_lt :: "string \<Rightarrow> string \<Rightarrow> bool" where
  "smt_str_lt [] t = (t \<noteq> [])"
| "smt_str_lt (c # s) [] = False"
| "smt_str_lt (c # s) (d # t) = ((of_char c :: nat) < of_char d \<or> (c = d \<and> smt_str_lt s t))""#
  | stringAtMost => r#"definition smt_str_le :: "string \<Rightarrow> string \<Rightarrow> bool" where
  "smt_str_le s t = (s = t \<or> smt_str_lt s t)""#
  | stringToInt => r#"definition smt_str_to_int :: "string \<Rightarrow> int" where
  "smt_str_to_int s = (if s \<noteq> [] \<and> (\<forall>c\<in>set s. 48 \<le> (of_char c :: int) \<and> (of_char c :: int) \<le> 57)
    then foldl (\<lambda>n c. 10 * n + (of_char c - 48)) 0 s else - 1)""#
  | digits => r#"function smt_digits :: "nat \<Rightarrow> string" where
  "smt_digits n = (if n < 10 then [char_of (48 + n)] else smt_digits (n div 10) @ [char_of (48 + n mod 10)])"
  by pat_completeness auto
termination by (relation "measure id") auto"#
  | stringFromInt => r#"definition smt_str_from_int :: "int \<Rightarrow> string" where
  "smt_str_from_int i = (if i < 0 then [] else smt_digits (nat i))""#

def isRecursive : Helper → Bool
  | stringContains | stringFind | replacement | stringLess | digits => true
  | _ => false

/-- The theorem by which a proof unfolds the constant. -/
def fact (helper : Helper) : Text :=
  helper.name ++ (if helper.isRecursive then ".simps" else "_def")

def ofName? (name : Text) : Option Helper :=
  all.find? fun helper => helper.name = name

/-- The given helpers with all that they refer to, directly or not, in the order
of `all`. Since dependencies come first, one pass from the end finds them. -/
def closure (helpers : List Helper) : List Helper :=
  all.foldr (fun helper wanted =>
    if helpers.contains helper || wanted.any fun later =>
      later.dependencies.contains helper
    then helper :: wanted else wanted) []

end Helper

end ModelAudit
