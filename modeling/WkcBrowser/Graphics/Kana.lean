import WkcBrowser.Graphics.Glyphs
import Mathlib.Data.List.Induction

/-!
# The composition of kana

* `pairs`                 a table as what it is for: a base kana and the voiced one;
* `compose`               the marks put on the bases before them;
* `search_of_not_second`  the loop over the flat table finds what `pairs` says, unless it meets a second column;
* `Behind`                where the code is after it has met one: it has fewer units, and stays so;
* `combineCharsInText_iff`      it composes exactly the texts in which no mark follows a voiced kana of its table.
-/

namespace Wkc
namespace Glyphs

/-! ## what is wanted -/

def pairs : WString → List (UInt16 × UInt16)
  | first :: second :: tbl => if first = 0 then [] else (first, second) :: pairs tbl
  | _ => []

/-- the voiced kana of a table -/
def seconds (tbl : WString) : WString := (pairs tbl).map Prod.snd

def voiced (c b : UInt16) : Option UInt16 := (tableOf c).bind fun tbl => (pairs tbl).lookup b

/-- the output so far, after one more unit -/
def composeUnit (out : WString) (c : UInt16) : WString :=
  match out.getLast?.bind (voiced c) with
  | some v => out.dropLast ++ [v]
  | none => out ++ [c]

def compose (str : WString) : WString := str.foldl composeUnit []

/-- The text is composed, and there is no zero in it that was not there. -/
structure Composes (isMark : UInt16 → Bool) (gGlyphBuf : GlyphBuf) (str : WString) : Prop where
  text : ∃ needdelete, combineCharsInText false isMark gGlyphBuf str = some (compose str, needdelete)
  zero : ∀ text needdelete, combineCharsInText false isMark gGlyphBuf str = some (text, needdelete) → 0 ∈ text → 0 ∈ str

/-- No mark directly follows, in the output so far, a voiced kana of its own table. -/
def Plain (str : WString) : Prop :=
  ∀ pre c post, str = pre ++ c :: post → ∀ tbl, tableOf c = some tbl →
    ∀ b, (compose pre).getLast? = some b → b ∉ seconds tbl

/-! ## the tables -/

section
variable {c b v : UInt16} {tbl : WString}

theorem tableOf_cases (h : tableOf c = some tbl) : (c = 0x3099 ∧ tbl = cU3099) ∨ (c = 0x309a ∧ tbl = cU309a) := by
  unfold tableOf at h
  split at h
  · rename_i hc
    exact Or.inl ⟨hc, (Option.some.inj h).symm⟩
  · split at h
    · rename_i hc
      exact Or.inr ⟨hc, (Option.some.inj h).symm⟩
    · exact absurd h (by simp)

theorem tables_all {P : UInt16 → WString → Prop} (h3099 : P 0x3099 cU3099) (h309a : P 0x309a cU309a)
    (h : tableOf c = some tbl) : P c tbl := by
  rcases tableOf_cases h with ⟨rfl, rfl⟩ | ⟨rfl, rfl⟩
  · exact h3099
  · exact h309a

theorem search_of_not_second (hzero : 0 ∉ seconds tbl) (h : b ∉ seconds tbl) : search tbl b = (pairs tbl).lookup b := by
  fun_induction pairs tbl with
  | case1 second tbl =>
    simp [search]
  | case2 first second tbl hfirst ih =>
    have hseconds : seconds (first :: second :: tbl) = second :: seconds tbl := by
      unfold seconds
      rw [pairs, if_neg hfirst, List.map_cons]
    rw [hseconds, List.mem_cons, not_or] at hzero h
    rw [search, if_neg hfirst]
    by_cases hb : first = b
    · rw [if_pos hb, ← hb, List.lookup_cons_self]
      rfl
    · have hbeq : (b == first) = false := beq_eq_false_iff_ne.mpr fun heq => hb heq.symm
      rw [if_neg hb, search, if_neg fun heq => hzero.1 heq.symm, if_neg fun heq => h.1 heq.symm,
        ih hzero.2 h.2, List.lookup_cons, hbeq]
  | case3 tbl hshort =>
    match tbl, hshort with
    | [], _ => rfl
    | [u], _ => simp [search]
    | first :: second :: tbl, hshort => exact absurd rfl (hshort first second tbl)

theorem search_eq (htable : tableOf c = some tbl) (h : b ∉ seconds tbl) : search tbl b = voiced c b := by
  have hzero : 0 ∉ seconds tbl := tables_all (P := fun _ tbl => 0 ∉ seconds tbl) (by decide) (by decide) htable
  rw [search_of_not_second hzero h, voiced, htable]
  rfl

theorem search_second (htable : tableOf c = some tbl) (h : b ∈ seconds tbl) : (search tbl b).isSome := by
  have hall : ((seconds tbl).all fun b => (search tbl b).isSome) = true :=
    tables_all (P := fun _ tbl => ((seconds tbl).all fun b => (search tbl b).isSome) = true) (by decide +kernel)
      (by decide +kernel) htable
  exact List.all_eq_true.mp hall b h

theorem mem_seconds (htable : tableOf c = some tbl) (h : voiced c b = some v) : v ∈ seconds tbl := by
  rw [voiced, htable, Option.bind_some, List.lookup_eq_some_iff] at h
  obtain ⟨before, behind, hpairs, -⟩ := h
  exact List.mem_map.mpr ⟨(b, v), by simp [hpairs], rfl⟩

theorem voiced_not_mark {b : UInt16} (h : tableOf c = none) : voiced c b = none := by
  rw [voiced, h]
  rfl

theorem not_base (htable : tableOf c = some tbl) {d : UInt16} : voiced d c = none ∧ ∀ v ∈ seconds tbl, voiced d v = none := by
  cases hd : tableOf d with
  | none => exact ⟨voiced_not_mark hd, fun v _ => voiced_not_mark hd⟩
  | some other =>
    have hall : ((c :: seconds tbl).all fun v => (voiced d v).isNone) = true := by
      rcases tableOf_cases hd with ⟨rfl, -⟩ | ⟨rfl, -⟩ <;>
        rcases tableOf_cases htable with ⟨rfl, rfl⟩ | ⟨rfl, rfl⟩ <;>
        decide +kernel
    have hnone : ∀ v ∈ c :: seconds tbl, voiced d v = none := fun v hv =>
      Option.isNone_iff_eq_none.mp (List.all_eq_true.mp hall v hv)
    exact ⟨hnone c List.mem_cons_self, fun v hv => hnone v (List.mem_cons_of_mem c hv)⟩

end

/-! ## the code and the scan, one unit at a time -/

section
variable {isMark : UInt16 → Bool} {out text str : WString} {c : UInt16}

theorem compose_concat (str : WString) (c : UInt16) : compose (str ++ [c]) = composeUnit (compose str) c := by
  unfold compose
  rw [List.foldl_append]
  rfl

theorem composeUnit_none (h : ∀ b, out.getLast? = some b → voiced c b = none) : composeUnit out c = out ++ [c] := by
  unfold composeUnit
  cases hlast : out.getLast? with
  | none => rfl
  | some b =>
    rw [Option.bind_some, h b hlast]

theorem composeUnit_some {b v : UInt16} (hlast : out.getLast? = some b) (h : voiced c b = some v) :
    composeUnit out c = out.dropLast ++ [v] := by
  unfold composeUnit
  rw [hlast, Option.bind_some, h]

theorem combined_append (h : isMark c = false ∨ tableOf c = none) : combined isMark text c = text ++ [c] := by
  unfold combined
  cases hlast : text.getLast? with
  | none =>
    rw [List.getLast?_eq_none_iff.mp hlast]
    rfl
  | some b =>
    dsimp only
    split
    · rename_i hmark
      have hnone : tableOf c = none := h.resolve_left (by simp [hmark])
      rw [hnone]
      rfl
    · rfl

variable (hmark : ∀ c, tableOf c ≠ none → isMark c = true)
include hmark

theorem combined_mark {tbl : WString} {b : UInt16} (htable : tableOf c = some tbl) (hlast : text.getLast? = some b) :
    combined isMark text c =
      match search tbl b with
      | some v => text.dropLast ++ [v]
      | none => text ++ [c] := by
  unfold combined
  rw [hlast]
  dsimp only
  rw [if_pos (hmark c (by simp [htable])), htable]
  rfl

theorem combined_eq (h : ∀ tbl, tableOf c = some tbl → ∀ b, text.getLast? = some b → b ∉ seconds tbl) :
    combined isMark text c = composeUnit text c := by
  cases htable : tableOf c with
  | none => rw [combined_append (Or.inr htable), composeUnit_none fun b _ => voiced_not_mark htable]
  | some tbl =>
    cases hlast : text.getLast? with
    | none =>
      rw [List.getLast?_eq_none_iff.mp hlast]
      rfl
    | some b =>
      rw [combined_mark hmark htable hlast, search_eq htable (h tbl htable b hlast)]
      cases hv : voiced c b with
      | none => exact (composeUnit_none fun b' hb' => by rwa [Option.some.inj (hb'.symm.trans hlast)]).symm
      | some v => exact (composeUnit_some hlast hv).symm

/-! ## after a voiced kana -/

omit hmark in
/-- the code has fewer units than the scan, and sees every base that the scan sees -/
structure Behind (text out : WString) : Prop where
  shorter : text.length < out.length
  base : ∀ b, out.getLast? = some b → (∃ d, voiced d b ≠ none) → text.getLast? = some b

theorem Behind.start {tbl : WString} {b : UInt16} (htable : tableOf c = some tbl) (hlast : text.getLast? = some b)
    (hb : b ∈ seconds tbl) : Behind (combined isMark text c) (composeUnit text c) := by
  have hne : text ≠ [] := by
    rintro rfl
    simp at hlast
  have hpos : 0 < text.length := List.length_pos_of_ne_nil hne
  obtain ⟨v, hv⟩ := Option.isSome_iff_exists.mp (search_second htable hb)
  have hscan : composeUnit text c = text ++ [c] :=
    composeUnit_none fun b' hb' => by
      rw [Option.some.inj (hb'.symm.trans hlast)]
      exact (not_base htable).2 b hb
  rw [combined_mark hmark htable hlast, hv, hscan]
  constructor
  · simp
    omega
  · intro b' hb' hbase
    obtain ⟨d, hd⟩ := hbase
    rw [List.getLast?_concat] at hb'
    rw [← Option.some.inj hb'] at hd
    exact absurd (not_base htable).1 hd

theorem Behind.next (h : Behind text out) (c : UInt16) : Behind (combined isMark text c) (composeUnit out c) := by
  cases htable : tableOf c with
  | none =>
    rw [combined_append (Or.inr htable), composeUnit_none fun b _ => voiced_not_mark htable]
    constructor
    · simpa using h.shorter
    · intro b hb _
      rw [List.getLast?_concat] at hb ⊢
      exact hb
  | some tbl =>
    by_cases hbase : ∃ b, out.getLast? = some b ∧ voiced c b ≠ none
    · -- both compose
      obtain ⟨b, hlast, hb⟩ := hbase
      obtain ⟨v, hv⟩ := Option.ne_none_iff_exists'.mp hb
      have htext : text.getLast? = some b := h.base b hlast ⟨c, hb⟩
      have hnot : b ∉ seconds tbl := fun hmem => hb ((not_base htable).2 b hmem)
      rw [combined_mark hmark htable htext, search_eq htable hnot, hv, composeUnit_some hlast hv]
      constructor
      · have hshorter := h.shorter
        have hpos : 0 < text.length := List.length_pos_of_ne_nil (by
          rintro rfl
          simp at htext)
        simp
        omega
      · intro b' hb' hother
        obtain ⟨d, hd⟩ := hother
        rw [List.getLast?_concat] at hb'
        rw [← Option.some.inj hb'] at hd
        exact absurd ((not_base htable).2 v (mem_seconds htable hv)) hd
    · -- the scan keeps the mark
      have hscan : composeUnit out c = out ++ [c] := composeUnit_none fun b hb => by
        by_contra hne
        exact hbase ⟨b, hb, hne⟩
      rw [hscan]
      constructor
      · have hshorter := h.shorter
        have hle := length_combined_le isMark text c
        simp
        omega
      · intro b hb hother
        obtain ⟨d, hd⟩ := hother
        rw [List.getLast?_concat] at hb
        rw [← Option.some.inj hb] at hd
        exact absurd (not_base htable).1 hd

omit hmark in
theorem plain_concat : Plain (str ++ [c]) ↔
    Plain str ∧ ∀ tbl, tableOf c = some tbl → ∀ b, (compose str).getLast? = some b → b ∉ seconds tbl := by
  constructor
  · intro h
    exact ⟨fun pre d post hstr => h pre d (post ++ [c]) (by simp [hstr]), h str c [] rfl⟩
  · rintro ⟨hplain, hlast⟩ pre d post h
    rcases List.eq_nil_or_concat post with rfl | ⟨post, e, rfl⟩
    · obtain ⟨rfl, hd⟩ := List.append_inj' h rfl
      obtain rfl := List.singleton_inj.mp hd
      exact hlast
    · rw [List.concat_eq_append, ← List.cons_append, ← List.append_assoc] at h
      obtain ⟨rfl, -⟩ := List.append_inj' h rfl
      exact hplain pre d post rfl

omit hmark in
theorem plain_nil : Plain [] := fun pre c post h => absurd h (by simp)

theorem combined_plain (h : Plain str) : str.foldl (combined isMark) [] = compose str := by
  induction str using List.reverseRecOn with
  | nil => rfl
  | append_singleton str c ih =>
    obtain ⟨hplain, hlast⟩ := plain_concat.mp h
    rw [List.foldl_append, compose_concat, ih hplain]
    exact combined_eq hmark hlast

theorem behind_of_not_plain (h : ¬ Plain str) : Behind (str.foldl (combined isMark) []) (compose str) := by
  induction str using List.reverseRecOn with
  | nil => exact absurd plain_nil h
  | append_singleton str c ih =>
    rw [List.foldl_append, compose_concat]
    show Behind (combined isMark (str.foldl (combined isMark) []) c) _
    by_cases hplain : Plain str
    · -- the first mark behind a voiced kana
      rw [combined_plain hmark hplain]
      rw [plain_concat] at h
      simp only [hplain, true_and, not_forall, not_not] at h
      obtain ⟨tbl, htable, b, hlast, hb⟩ := h
      exact Behind.start hmark htable hlast hb
    · exact (ih hplain).next hmark c

theorem combinedText_iff (str : WString) : str.foldl (combined isMark) [] = compose str ↔ Plain str := by
  constructor
  · intro h
    by_contra hplain
    have hshorter := (behind_of_not_plain hmark hplain).shorter
    rw [h] at hshorter
    exact absurd hshorter (Nat.lt_irrefl _)
  · exact combined_plain hmark

end

/-! ## the function -/

section
variable {isMark : UInt16 → Bool} {str : WString}

theorem compose_unmarked (h : ∀ c ∈ str.drop 1, tableOf c = none) : compose str = str := by
  induction str using List.reverseRecOn with
  | nil => rfl
  | append_singleton str c ih =>
    rcases eq_or_ne str [] with rfl | hne
    · rfl
    · have hdrop : (str ++ [c]).drop 1 = str.drop 1 ++ [c] :=
        List.drop_append_of_le_length (List.length_pos_of_ne_nil hne)
      rw [hdrop] at h
      have hc : tableOf c = none := h c (by simp)
      rw [compose_concat, ih fun d hd => h d (List.mem_append_left _ hd),
        composeUnit_none fun b _ => voiced_not_mark hc]

theorem plain_unmarked (h : ∀ c ∈ str.drop 1, tableOf c = none) : Plain str := by
  intro pre c post hstr tbl htable b hb
  cases pre with
  | nil => exact absurd hb (by simp [compose])
  | cons first pre =>
    subst hstr
    rw [h c (by simp)] at htable
    exact absurd htable (by simp)

theorem mem_compose {u : UInt16} (h : u ∈ compose str) : u ∈ str ∨ ∃ c tbl, tableOf c = some tbl ∧ u ∈ seconds tbl := by
  induction str using List.reverseRecOn with
  | nil => exact absurd h List.not_mem_nil
  | append_singleton str c ih =>
    rw [compose_concat] at h
    unfold composeUnit at h
    split at h
    · rename_i v hv
      rcases List.mem_append.mp h with h | h
      · exact (ih (List.dropLast_subset _ h)).imp_left fun hu => by simp [hu]
      · obtain ⟨b, -, hb⟩ := Option.bind_eq_some_iff.mp hv
        rw [List.mem_singleton.mp h]
        cases htable : tableOf c with
        | none =>
          rw [voiced_not_mark htable] at hb
          exact absurd hb (by simp)
        | some tbl => exact Or.inr ⟨c, tbl, htable, mem_seconds htable hb⟩
    · rcases List.mem_append.mp h with h | h
      · exact (ih h).imp_left fun hu => by simp [hu]
      · exact Or.inl (by simp [List.mem_singleton.mp h])

theorem zero_mem_compose (h : 0 ∈ compose str) : 0 ∈ str := by
  refine (mem_compose h).resolve_right ?_
  rintro ⟨c, tbl, htable, hzero⟩
  exact absurd hzero (tables_all (P := fun _ tbl => 0 ∉ seconds tbl) (by decide) (by decide) htable)

end

/-- A font engine without marks gets the composed text exactly if no mark of the text follows, in the output so far, a
voiced kana of the table of that mark. -/
theorem combineCharsInText_iff (isMark : UInt16 → Bool) (hmark : isMark 0x3099 = true ∧ isMark 0x309a = true)
    (gGlyphBuf : GlyphBuf) (str : WString) : Composes isMark gGlyphBuf str ↔ Plain str := by
  have hmarks : ∀ c, tableOf c ≠ none → isMark c = true := by
    intro c hc
    obtain ⟨tbl, htable⟩ := Option.ne_none_iff_exists'.mp hc
    exact tables_all (P := fun c _ => isMark c = true) hmark.1 hmark.2 htable
  cases hany : (str.drop 1).any isMark with
  | true =>
    have hcode : combineCharsInText false isMark gGlyphBuf str =
        some (str.foldl (combined isMark) [], decide (str.length ≥ cGlyphBufMaxLen - 1)) := by
      rw [combineCharsInText_eq, if_pos ⟨rfl, hany⟩]
    rw [← combinedText_iff hmarks]
    constructor
    · rintro ⟨⟨needdelete, h⟩, -⟩
      rw [hcode] at h
      exact congrArg Prod.fst (Option.some.inj h)
    · intro h
      rw [h] at hcode
      refine ⟨⟨_, hcode⟩, fun text needdelete htext hzero => ?_⟩
      rw [hcode] at htext
      obtain ⟨rfl, -⟩ := Prod.mk.inj (Option.some.inj htext)
      exact zero_mem_compose hzero
  | false =>
    have hunmarked : ∀ c ∈ str.drop 1, tableOf c = none := by
      intro c hc
      by_contra hne
      have hfalse := List.any_eq_false.mp hany c hc
      exact hfalse (hmarks c hne)
    have hcode : combineCharsInText false isMark gGlyphBuf str = some (compose str, false) := by
      rw [combineCharsInText_eq, if_neg (by rw [hany]; simp), compose_unmarked hunmarked]
    refine iff_of_true ⟨⟨_, hcode⟩, fun text needdelete htext hzero => ?_⟩ (plain_unmarked hunmarked)
    rw [hcode] at htext
    obtain ⟨rfl, -⟩ := Prod.mk.inj (Option.some.inj htext)
    exact zero_mem_compose hzero

/-- the marks, and nothing else -/
def kanaMark (c : UInt16) : Bool := c == 0x3099 || c == 0x309a

def emptyBuf : GlyphBuf := ⟨newUChars cGlyphBufMaxLen, newUChars_length _⟩

theorem combineCharsInText_ga : Plain [0x304b, 0x3099, 0x3042] ∧ Composes kanaMark emptyBuf [0x304b, 0x3099, 0x3042] := by
  have hplain : Plain [0x304b, 0x3099, 0x3042] := by
    have hka : Plain [0x304b] := plain_concat.mpr ⟨plain_nil, fun _ _ _ h => absurd h nofun⟩
    have hga : Plain [0x304b, 0x3099] := by
      refine plain_concat.mpr ⟨hka, ?_⟩
      rintro _ ⟨⟩ _ ⟨⟩
      decide
    have hnot : tableOf 0x3042 = none := rfl
    exact plain_concat.mpr ⟨hga, fun _ htable => absurd (hnot.symm.trans htable) nofun⟩
  exact ⟨hplain, (combineCharsInText_iff kanaMark ⟨rfl, rfl⟩ emptyBuf _).mpr hplain⟩

/-- A second mark turns a letter into the next one of the table, and the last letter of the table into a zero. -/
theorem voiced_kana_changes :
    combineCharsInText false kanaMark emptyBuf [0x304c, 0x3099] = some ([0x304d], false) ∧
      compose [0x304c, 0x3099] = [0x304c, 0x3099] ∧ ¬ Composes kanaMark emptyBuf [0x304c, 0x3099] ∧
      combineCharsInText false kanaMark emptyBuf [0x30fe, 0x3099] = some ([0], false) ∧
      ¬ Composes kanaMark emptyBuf [0x30fe, 0x3099] := by
  have hlost : ∀ str text, combineCharsInText false kanaMark emptyBuf str = some (text, false) → text ≠ compose str →
      ¬ Composes kanaMark emptyBuf str := by
    rintro str text hcode hne ⟨⟨needdelete, h⟩, -⟩
    rw [hcode] at h
    exact hne (congrArg Prod.fst (Option.some.inj h))
  have hki : combineCharsInText false kanaMark emptyBuf [0x304c, 0x3099] = some ([0x304d], false) := by
    rw [combineCharsInText_eq]
    decide
  have hzero : combineCharsInText false kanaMark emptyBuf [0x30fe, 0x3099] = some ([0], false) := by
    rw [combineCharsInText_eq]
    decide
  exact ⟨hki, by decide, hlost _ _ hki (by decide), hzero, hlost _ _ hzero (by decide)⟩

end Glyphs
end Wkc
