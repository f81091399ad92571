import Mathlib.Data.List.Nodup
import WkcBrowser.Mhtml.Save

/-!
# The size query and the three walks

`caculateItems`, `getItemsSize` and `serializeTree` should save the same resources.  They differ in what
they pass by: the first leaves out a frame whose main resource is empty or known, the second one whose main
resource it has recorded, and it also records the resources without a body.

* `isNew`, `fresh`      the test of `serializeResourceIfNew`, and its answers over a whole walk;
* `Counts`, `Sizes`     on such trees the first two walks answer the same;
* `Agree`               the three walks and the reported size agree;
* `sizes_agree_iff`     they do exactly on such trees, if no buffer ends where a body does.
-/

namespace Wkc
namespace MHTMLWebArchive
open Serializer

/-- the test of `serializeResourceIfNew` -/
def isNew (saved : List WString) (r : ArchiveResource) : Bool :=
  !(r.data.isEmpty || saved.contains r.url)

def keep (saved : List WString) (r : ArchiveResource) : List WString :=
  if isNew saved r then r.url :: saved else saved

def fresh : List WString → List ArchiveResource → List Bool
  | _, [] => []
  | saved, r :: rs => isNew saved r :: fresh (keep saved r) rs

/-- the URLs `getItemsSize` has recorded after `r` -/
def record (recorded : List WString) (r : ArchiveResource) : List WString :=
  if recorded.contains r.url then recorded else r.url :: recorded

/-! ## trees on which the walks do the same -/

mutual

/-- a frame that `caculateItems` leaves out holds nothing new -/
def Counts : List WString → MHTMLWebArchive → Prop
  | saved, create main subresources frames =>
    if isNew saved main then CountsFrames ((main :: subresources).foldl keep saved) frames
    else news saved (create main subresources frames).resources = []

def CountsFrames : List WString → List MHTMLWebArchive → Prop
  | _, [] => True
  | saved, a :: rest => Counts saved a ∧ CountsFrames (a.resources.foldl keep saved) rest

end

/-- nothing new was recorded before -/
def SizesResources : List WString → List WString → List ArchiveResource → Prop
  | _, _, [] => True
  | saved, recorded, r :: rs =>
    (isNew saved r = true → r.url ∉ recorded) ∧ SizesResources (keep saved r) (record recorded r) rs

mutual

def recordTree : List WString → MHTMLWebArchive → List WString
  | recorded, create main subresources frames =>
    if recorded.contains main.url then recorded
    else recordFrames ((main :: subresources).foldl record recorded) frames

def recordFrames : List WString → List MHTMLWebArchive → List WString
  | recorded, [] => recorded
  | recorded, a :: rest => recordFrames (recordTree recorded a) rest

end

mutual

/-- a frame that `getItemsSize` leaves out holds nothing new, and nothing new was recorded before -/
def Sizes : List WString → List WString → MHTMLWebArchive → Prop
  | saved, recorded, create main subresources frames =>
    if recorded.contains main.url then news saved (create main subresources frames).resources = []
    else
      SizesResources saved recorded (main :: subresources) ∧
        SizesFrames ((main :: subresources).foldl keep saved)
          ((main :: subresources).foldl record recorded) frames

def SizesFrames : List WString → List WString → List MHTMLWebArchive → Prop
  | _, _, [] => True
  | saved, recorded, a :: rest =>
    Sizes saved recorded a ∧ SizesFrames (a.resources.foldl keep saved) (recordTree recorded a) rest

end

section
variable {saved : List WString} {r : ArchiveResource} {rs : List ArchiveResource}

theorem keep_new (h : isNew saved r = true) : keep saved r = r.url :: saved := if_pos h

theorem keep_old (h : isNew saved r = false) : keep saved r = saved := by
  unfold keep
  rw [h]
  rfl

theorem news_new (h : isNew saved r = true) : news saved (r :: rs) = r :: news (keep saved r) rs := by
  rw [keep_new h, news]
  have hboth : r.data.isEmpty = false ∧ saved.contains r.url = false := by simpa [isNew] using h
  rw [hboth.1, hboth.2]
  rfl

theorem news_old (h : isNew saved r = false) : news saved (r :: rs) = news (keep saved r) rs := by
  rw [keep_old h, news]
  have heither : r.data.isEmpty = true ∨ saved.contains r.url = true := by
    rw [← Bool.or_eq_true]
    simpa only [isNew, Bool.not_eq_false'] using h
  rcases heither with hempty | hknown
  · rw [if_pos hempty]
  · rw [if_pos hknown, ite_self]

theorem fresh_length (saved : List WString) (rs : List ArchiveResource) :
    (fresh saved rs).length = rs.length := by
  induction rs generalizing saved with
  | nil => rfl
  | cons r rs ih => rw [fresh, List.length_cons, List.length_cons, ih]

theorem fresh_append (saved : List WString) (xs ys : List ArchiveResource) :
    fresh saved (xs ++ ys) = fresh saved xs ++ fresh (xs.foldl keep saved) ys := by
  induction xs generalizing saved with
  | nil => rfl
  | cons x xs ih => rw [List.cons_append, fresh, fresh, ih, List.foldl_cons, List.cons_append]

theorem news_append (saved : List WString) (xs ys : List ArchiveResource) :
    news saved (xs ++ ys) = news saved xs ++ news (xs.foldl keep saved) ys := by
  induction xs generalizing saved with
  | nil => rfl
  | cons x xs ih =>
    rw [List.cons_append, List.foldl_cons]
    cases h : isNew saved x with
    | false => rw [news_old h, news_old h, ih]
    | true => rw [news_new h, news_new h, ih, List.cons_append]

theorem fresh_none : fresh saved rs = List.replicate rs.length false ↔ news saved rs = [] := by
  induction rs generalizing saved with
  | nil => exact ⟨fun _ => rfl, fun _ => rfl⟩
  | cons r rs ih =>
    rw [fresh, List.length_cons, List.replicate_succ, List.cons.injEq]
    cases h : isNew saved r with
    | false =>
      rw [news_old h, ← ih]
      simp
    | true =>
      rw [news_new h]
      simp

theorem foldl_keep_none (h : news saved rs = []) : rs.foldl keep saved = saved := by
  induction rs generalizing saved with
  | nil => rfl
  | cons r rs ih =>
    rw [List.foldl_cons]
    cases hnew : isNew saved r with
    | false =>
      rw [news_old hnew] at h
      rw [ih h, keep_old hnew]
    | true =>
      rw [news_new hnew] at h
      cases h

end

theorem resources_create (main : ArchiveResource) (subresources : List ArchiveResource)
    (frames : List MHTMLWebArchive) :
    (create main subresources frames).resources = (main :: subresources) ++ framesResources frames := by
  rw [resources, List.cons_append]

/-! ## `caculateItems` -/

theorem countResources_eq (rs : List ArchiveResource) (items : Nat) (w : Walk) :
    countResources rs items w = (items + (news w.uniqueSubresources rs).length,
      ⟨rs.foldl keep w.uniqueSubresources, w.visits ++ fresh w.uniqueSubresources rs⟩) := by
  induction rs generalizing items w with
  | nil =>
    rw [countResources, fresh, List.append_nil]
    rfl
  | cons r rs ih =>
    have hdef : isNew w.uniqueSubresources r = !(r.data.isEmpty || w.knows r) := rfl
    rw [countResources, countResource, List.foldl_cons, fresh]
    cases hnew : isNew w.uniqueSubresources r with
    | false =>
      have hold : (r.data.isEmpty || w.knows r) = true := by
        rw [hnew] at hdef
        simpa only [Bool.not_eq_false'] using hdef.symm
      rw [if_pos hold, news_old hnew, keep_old hnew]
      dsimp only
      rw [ih, Walk.skip, List.append_assoc]
      rfl
    | true =>
      have hboth : (r.data.isEmpty || w.knows r) = false := by simpa [hnew] using hdef.symm
      rw [if_neg (by rw [hboth]; exact Bool.false_ne_true), news_new hnew, keep_new hnew]
      dsimp only
      rw [ih, Walk.add, List.append_assoc, List.length_cons, Nat.add_assoc, Nat.add_comm 1]
      rfl

theorem caculateItems_create (main : ArchiveResource) (subresources : List ArchiveResource)
    (frames : List MHTMLWebArchive) (items : Nat) (w : Walk) :
    (create main subresources frames).caculateItems items w =
      if isNew w.uniqueSubresources main then
        caculateFrames frames (countResources (main :: subresources) items w).1
          (countResources (main :: subresources) items w).2
      else (items, w.skip (create main subresources frames).resources.length) := by
  have hdef : isNew w.uniqueSubresources main = !(main.data.isEmpty || w.knows main) := rfl
  rw [caculateItems, countResources, countResource, hdef]
  cases (main.data.isEmpty || w.knows main) with
  | false | true => rfl

mutual

theorem caculateItems_eq (a : MHTMLWebArchive) (items : Nat) (w : Walk)
    (h : Counts w.uniqueSubresources a) :
    a.caculateItems items w = (items + (news w.uniqueSubresources a.resources).length,
      ⟨a.resources.foldl keep w.uniqueSubresources,
        w.visits ++ fresh w.uniqueSubresources a.resources⟩) := by
  cases a with
  | create main subresources frames =>
    rw [Counts] at h
    rw [caculateItems_create]
    by_cases hnew : isNew w.uniqueSubresources main = true
    · rw [if_pos hnew] at h ⊢
      rw [countResources_eq, caculateFrames_eq frames _ _ h, resources_create, news_append, fresh_append,
        List.foldl_append, List.length_append, List.append_assoc, Nat.add_assoc]
    · rw [if_neg hnew] at h ⊢
      rw [h, foldl_keep_none h, fresh_none.mpr h]
      rfl

theorem caculateFrames_eq (frames : List MHTMLWebArchive) (items : Nat) (w : Walk)
    (h : CountsFrames w.uniqueSubresources frames) :
    caculateFrames frames items w = (items + (news w.uniqueSubresources (framesResources frames)).length,
      ⟨(framesResources frames).foldl keep w.uniqueSubresources,
        w.visits ++ fresh w.uniqueSubresources (framesResources frames)⟩) := by
  cases frames with
  | nil =>
    rw [caculateFrames, framesResources, fresh, List.append_nil]
    rfl
  | cons a rest =>
    rw [CountsFrames] at h
    rw [caculateFrames, caculateItems_eq a items w h.1]
    dsimp only
    rw [caculateFrames_eq rest _ _ h.2, framesResources, news_append, fresh_append, List.foldl_append,
      List.length_append, List.append_assoc, Nat.add_assoc]

end

mutual

theorem caculateItems_visits (a : MHTMLWebArchive) (items : Nat) (w : Walk) :
    ∃ v, (a.caculateItems items w).2.visits = w.visits ++ v ∧ v.length = a.resources.length := by
  cases a with
  | create main subresources frames =>
    rw [caculateItems_create]
    by_cases hnew : isNew w.uniqueSubresources main = true
    · rw [if_pos hnew, countResources_eq]
      dsimp only
      obtain ⟨v, hv, hlen⟩ := caculateFrames_visits frames
        (items + (news w.uniqueSubresources (main :: subresources)).length)
        ⟨(main :: subresources).foldl keep w.uniqueSubresources,
          w.visits ++ fresh w.uniqueSubresources (main :: subresources)⟩
      refine ⟨fresh w.uniqueSubresources (main :: subresources) ++ v, ?_, ?_⟩
      · rw [hv, List.append_assoc]
      · rw [List.length_append, hlen, fresh_length, resources_create, List.length_append]
    · rw [if_neg hnew]
      exact ⟨_, rfl, List.length_replicate⟩

theorem caculateFrames_visits (frames : List MHTMLWebArchive) (items : Nat) (w : Walk) :
    ∃ v, (caculateFrames frames items w).2.visits = w.visits ++ v ∧
      v.length = (framesResources frames).length := by
  cases frames with
  | nil => exact ⟨[], (List.append_nil _).symm, rfl⟩
  | cons a rest =>
    obtain ⟨v, hv, hlen⟩ := caculateItems_visits a items w
    obtain ⟨u, hu, hlen'⟩ := caculateFrames_visits rest (a.caculateItems items w).1
      (a.caculateItems items w).2
    refine ⟨v ++ u, ?_, ?_⟩
    · rw [caculateFrames]
      exact hu.trans (by rw [hv, List.append_assoc])
    · rw [List.length_append, hlen, hlen', framesResources, List.length_append]

end

mutual

theorem Counts.of_visits (a : MHTMLWebArchive) (items : Nat) (w : Walk)
    (h : (a.caculateItems items w).2.visits = w.visits ++ fresh w.uniqueSubresources a.resources) :
    Counts w.uniqueSubresources a := by
  cases a with
  | create main subresources frames =>
    rw [caculateItems_create] at h
    rw [Counts]
    by_cases hnew : isNew w.uniqueSubresources main = true
    · rw [if_pos hnew] at h ⊢
      rw [resources_create, fresh_append, countResources_eq, ← List.append_assoc] at h
      exact CountsFrames.of_visits frames _
        ⟨(main :: subresources).foldl keep w.uniqueSubresources,
          w.visits ++ fresh w.uniqueSubresources (main :: subresources)⟩ h
    · rw [if_neg hnew] at h ⊢
      exact fresh_none.mp (List.append_cancel_left h).symm

theorem CountsFrames.of_visits (frames : List MHTMLWebArchive) (items : Nat) (w : Walk)
    (h : (caculateFrames frames items w).2.visits =
      w.visits ++ fresh w.uniqueSubresources (framesResources frames)) :
    CountsFrames w.uniqueSubresources frames := by
  cases frames with
  | nil =>
    rw [CountsFrames]
    exact trivial
  | cons a rest =>
    obtain ⟨v, hv, hlen⟩ := caculateItems_visits a items w
    obtain ⟨u, hu, -⟩ := caculateFrames_visits rest (a.caculateItems items w).1 (a.caculateItems items w).2
    have hall : v ++ u = fresh w.uniqueSubresources a.resources ++
        fresh (a.resources.foldl keep w.uniqueSubresources) (framesResources rest) := by
      rw [caculateFrames, framesResources, fresh_append] at h
      apply @List.append_cancel_left _ w.visits
      rw [← List.append_assoc, ← hv]
      exact hu.symm.trans h
    obtain ⟨hfirst, hrest⟩ := List.append_inj hall (by rw [hlen, fresh_length])
    have ha := Counts.of_visits a items w (by rw [hv, hfirst])
    rw [CountsFrames]
    refine ⟨ha, ?_⟩
    rw [caculateItems_eq a items w ha] at hu
    dsimp only at hu
    exact CountsFrames.of_visits rest _ ⟨a.resources.foldl keep w.uniqueSubresources,
      w.visits ++ fresh w.uniqueSubresources a.resources⟩ (by rw [hu, hrest])

end

/-! ## `getItemsSize` -/

theorem getOneItemSize_eq {r : ArchiveResource} (multipart : Bool) (h : r.url ≠ []) :
    getOneItemSize r multipart = some (part multipart r).length := by
  have hpos : Mhtml.partHeaderSize r ≠ 0 := by
    rw [← Mhtml.makePartHeader_length]
    exact fun hz => Mhtml.makePartHeader_ne_nil h (List.length_eq_zero_iff.mp hz)
  unfold getOneItemSize part boundary
  rw [if_neg hpos, List.length_append, List.length_append, Mhtml.makePartHeader_length]
  cases multipart with
  | false =>
    rw [if_neg Bool.false_ne_true, if_neg Bool.false_ne_true, List.length_nil]
    simp only [Nat.zero_add]
  | true => rw [if_pos rfl, if_pos rfl, Mhtml.makeBoundary_length, Nat.add_assoc]

theorem getItemsSize_create (multipart : Bool) (main : ArchiveResource)
    (subresources : List ArchiveResource) (frames : List MHTMLWebArchive) (w : Walk) :
    (create main subresources frames).getItemsSize multipart w =
      if w.uniqueSubresources.contains main.url then
        some (0, w.skip (create main subresources frames).resources.length)
      else
        (sizeResources multipart (main :: subresources) 0 w).bind
          (fun p => getFramesSize multipart frames p.1 p.2) := by
  rw [getItemsSize, sizeResources]
  show (if w.uniqueSubresources.contains main.url = true then _ else _) = _
  by_cases hknown : w.uniqueSubresources.contains main.url = true
  · rw [if_pos hknown, if_pos hknown]
  · have hnot : ¬ w.knows main = true := hknown
    rw [if_neg hknown, if_neg hknown, if_neg hnot]
    cases sizeResource multipart 0 w main with
    | none => rfl
    | some p =>
      dsimp only
      cases sizeResources multipart subresources p.1 p.2 with
      | none | some => rfl

def partsSize (multipart : Bool) (rs : List ArchiveResource) : Nat :=
  (rs.map (fun r => (part multipart r).length)).sum

theorem partsSize_append (multipart : Bool) (xs ys : List ArchiveResource) :
    partsSize multipart (xs ++ ys) = partsSize multipart xs + partsSize multipart ys := by
  unfold partsSize
  rw [List.map_append, List.sum_append]

theorem parts_length (multipart : Bool) (rs : List ArchiveResource) :
    (parts multipart rs).length = partsSize multipart rs + (boundary multipart true).length := by
  induction rs with
  | nil => exact (Nat.zero_add _).symm
  | cons r rs ih =>
    rw [parts, List.length_append, ih, ← Nat.add_assoc]
    rfl

section
variable {saved : List WString}

theorem foldl_keep_subset (rs : List ArchiveResource) {recorded : List WString} (h : saved ⊆ recorded) :
    rs.foldl keep saved ⊆ rs.foldl record recorded := by
  induction rs generalizing saved recorded with
  | nil => exact h
  | cons r rs ih =>
    rw [List.foldl_cons, List.foldl_cons]
    apply ih
    have hrecorded : recorded ⊆ record recorded r := by
      unfold record
      split
      · exact List.Subset.refl _
      · exact List.subset_cons_self _ _
    have hurl : r.url ∈ record recorded r := by
      unfold record
      split
      · next hmem => exact List.contains_iff_mem.mp hmem
      · exact List.mem_cons_self
    unfold keep
    split
    · exact List.cons_subset.mpr ⟨hurl, fun u hu => hrecorded (h hu)⟩
    · exact fun u hu => hrecorded (h hu)

theorem sizeResources_eq (multipart : Bool) (rs : List ArchiveResource) (size : Nat) (w : Walk)
    (hsub : saved ⊆ w.uniqueSubresources) (h : SizesResources saved w.uniqueSubresources rs)
    (hurls : ∀ x ∈ news saved rs, x.url ≠ []) :
    sizeResources multipart rs size w = some (size + partsSize multipart (news saved rs),
      ⟨rs.foldl record w.uniqueSubresources, w.visits ++ fresh saved rs⟩) := by
  induction rs generalizing saved size w with
  | nil =>
    rw [sizeResources, fresh, List.append_nil]
    rfl
  | cons r rs ih =>
    obtain ⟨hr, hrs⟩ := h
    rw [sizeResources, List.foldl_cons, fresh]
    by_cases hknown : w.knows r = true
    · have hmem : r.url ∈ w.uniqueSubresources := List.contains_iff_mem.mp hknown
      have hold : isNew saved r = false := Bool.eq_false_iff.mpr (fun hnew => hr hnew hmem)
      have hrec : record w.uniqueSubresources r = w.uniqueSubresources := if_pos hknown
      rw [keep_old hold, hrec] at hrs
      rw [news_old hold, keep_old hold] at hurls ⊢
      rw [if_pos hknown, ih size (w.skip 1) hsub hrs hurls, Walk.skip, List.append_assoc, hrec, hold]
      rfl
    · have hrec : record w.uniqueSubresources r = r.url :: w.uniqueSubresources := if_neg hknown
      have hnot : saved.contains r.url = false := by
        rw [Bool.eq_false_iff]
        intro hmem
        exact hknown (List.contains_iff_mem.mpr (hsub (List.contains_iff_mem.mp hmem)))
      have hdef : isNew saved r = !r.data.isEmpty := by
        unfold isNew
        rw [hnot, Bool.or_false]
      rw [if_neg hknown, sizeResource, hrec]
      rw [hrec] at hrs
      cases hempty : r.data.isEmpty with
      | true =>
        have hold : isNew saved r = false := by rw [hdef, hempty]; rfl
        rw [keep_old hold] at hrs
        rw [news_old hold, keep_old hold] at hurls ⊢
        rw [if_pos rfl]
        dsimp only
        rw [ih size (w.add r false) (List.subset_cons_of_subset _ hsub) hrs hurls, Walk.add,
          List.append_assoc, hold]
        rfl
      | false =>
        have hnew : isNew saved r = true := by rw [hdef, hempty]; rfl
        have hsub' : r.url :: saved ⊆ (w.add r true).uniqueSubresources := List.cons_subset_cons _ hsub
        rw [keep_new hnew] at hrs
        rw [news_new hnew, keep_new hnew] at hurls ⊢
        have hurl := hurls r List.mem_cons_self
        rw [if_neg Bool.false_ne_true, getOneItemSize_eq multipart hurl]
        dsimp only
        rw [ih _ (w.add r true) hsub' hrs (fun x hx => hurls x (List.mem_cons_of_mem _ hx)), Walk.add,
          List.append_assoc, Nat.add_assoc, hnew]
        rfl

mutual

theorem getItemsSize_eq (multipart : Bool) (a : MHTMLWebArchive) (saved : List WString) (w : Walk)
    (hsub : saved ⊆ w.uniqueSubresources) (h : Sizes saved w.uniqueSubresources a)
    (hurls : ∀ x ∈ news saved a.resources, x.url ≠ []) :
    a.resources.foldl keep saved ⊆ recordTree w.uniqueSubresources a ∧
    a.getItemsSize multipart w = some (partsSize multipart (news saved a.resources),
      ⟨recordTree w.uniqueSubresources a, w.visits ++ fresh saved a.resources⟩) := by
  cases a with
  | create main subresources frames =>
    rw [Sizes] at h
    rw [getItemsSize_create, recordTree]
    by_cases hknown : w.uniqueSubresources.contains main.url = true
    · rw [if_pos hknown] at h ⊢
      rw [if_pos hknown, foldl_keep_none h, h, fresh_none.mpr h]
      exact ⟨hsub, rfl⟩
    · rw [if_neg hknown] at h ⊢
      rw [resources_create, news_append] at hurls
      obtain ⟨hurls₁, hurls₂⟩ := List.forall_mem_append.mp hurls
      have hframes := getFramesSize_eq multipart frames ((main :: subresources).foldl keep saved)
        (0 + partsSize multipart (news saved (main :: subresources)))
        ⟨(main :: subresources).foldl record w.uniqueSubresources,
          w.visits ++ fresh saved (main :: subresources)⟩ (foldl_keep_subset _ hsub) h.2 hurls₂
      rw [if_neg hknown, sizeResources_eq multipart _ _ _ hsub h.1 hurls₁, Option.bind_some, hframes.2,
        resources_create, news_append, fresh_append, List.foldl_append, partsSize_append,
        List.append_assoc, Nat.zero_add]
      exact ⟨hframes.1, rfl⟩

theorem getFramesSize_eq (multipart : Bool) (frames : List MHTMLWebArchive) (saved : List WString)
    (size : Nat) (w : Walk) (hsub : saved ⊆ w.uniqueSubresources)
    (h : SizesFrames saved w.uniqueSubresources frames)
    (hurls : ∀ x ∈ news saved (framesResources frames), x.url ≠ []) :
    (framesResources frames).foldl keep saved ⊆ recordFrames w.uniqueSubresources frames ∧
    getFramesSize multipart frames size w =
      some (size + partsSize multipart (news saved (framesResources frames)),
        ⟨recordFrames w.uniqueSubresources frames, w.visits ++ fresh saved (framesResources frames)⟩) := by
  cases frames with
  | nil =>
    rw [getFramesSize, framesResources, fresh, List.append_nil, recordFrames]
    exact ⟨hsub, rfl⟩
  | cons a rest =>
    rw [SizesFrames] at h
    rw [framesResources, news_append] at hurls
    obtain ⟨hurls₁, hurls₂⟩ := List.forall_mem_append.mp hurls
    obtain ⟨hsub', ha⟩ := getItemsSize_eq multipart a saved w hsub h.1 hurls₁
    have hrest := getFramesSize_eq multipart rest (a.resources.foldl keep saved)
      (size + partsSize multipart (news saved a.resources))
      ⟨recordTree w.uniqueSubresources a, w.visits ++ fresh saved a.resources⟩ hsub' h.2 hurls₂
    rw [getFramesSize, ha]
    dsimp only
    rw [hrest.2, framesResources, news_append, fresh_append, List.foldl_append, partsSize_append,
      List.append_assoc, Nat.add_assoc, recordFrames]
    exact ⟨hrest.1, rfl⟩

end

theorem sizeResources_visits (multipart : Bool) (rs : List ArchiveResource) (size : Nat) (w : Walk)
    {p : Nat × Walk} (h : sizeResources multipart rs size w = some p) :
    ∃ v, p.2.visits = w.visits ++ v ∧ v.length = rs.length := by
  induction rs generalizing size w with
  | nil =>
    obtain rfl := Option.some.inj h
    exact ⟨[], (List.append_nil _).symm, rfl⟩
  | cons r rs ih =>
    have hnext : ∀ (n : Nat) (w' : Walk) (b : Bool), w'.visits = w.visits ++ [b] →
        sizeResources multipart rs n w' = some p →
        ∃ v, p.2.visits = w.visits ++ v ∧ v.length = (r :: rs).length := by
      intro n w' b hw hsome
      obtain ⟨v, hv, hlen⟩ := ih n w' hsome
      refine ⟨b :: v, ?_, ?_⟩
      · rw [hv, hw, List.append_assoc]
        rfl
      · rw [List.length_cons, List.length_cons, hlen]
    rw [sizeResources] at h
    split at h
    · exact hnext _ _ false rfl h
    · unfold sizeResource at h
      split at h
      · cases h
      · next n w' hone =>
        split at hone
        · obtain ⟨rfl, rfl⟩ := Prod.mk.inj (Option.some.inj hone)
          exact hnext _ _ false rfl h
        · split at hone
          · cases hone
          · obtain ⟨rfl, rfl⟩ := Prod.mk.inj (Option.some.inj hone)
            exact hnext _ _ true rfl h

mutual

theorem getItemsSize_visits (multipart : Bool) (a : MHTMLWebArchive) (w : Walk) {p : Nat × Walk}
    (h : a.getItemsSize multipart w = some p) :
    ∃ v, p.2.visits = w.visits ++ v ∧ v.length = a.resources.length := by
  cases a with
  | create main subresources frames =>
    rw [getItemsSize_create] at h
    split at h
    · obtain rfl := Option.some.inj h
      exact ⟨_, rfl, List.length_replicate⟩
    · obtain ⟨q, hq, hframes⟩ := Option.bind_eq_some_iff.mp h
      obtain ⟨v, hv, hlen⟩ := sizeResources_visits multipart _ _ _ hq
      obtain ⟨u, hu, hlen'⟩ := getFramesSize_visits multipart frames q.1 q.2 hframes
      refine ⟨v ++ u, ?_, ?_⟩
      · rw [hu, hv, List.append_assoc]
      · rw [List.length_append, hlen, hlen', resources_create, List.length_append]

theorem getFramesSize_visits (multipart : Bool) (frames : List MHTMLWebArchive) (size : Nat) (w : Walk)
    {p : Nat × Walk} (h : getFramesSize multipart frames size w = some p) :
    ∃ v, p.2.visits = w.visits ++ v ∧ v.length = (framesResources frames).length := by
  cases frames with
  | nil =>
    obtain rfl := Option.some.inj h
    exact ⟨[], (List.append_nil _).symm, rfl⟩
  | cons a rest =>
    rw [getFramesSize] at h
    split at h
    · cases h
    · next len w' ha =>
      obtain ⟨v, hv, hlen⟩ := getItemsSize_visits multipart a w ha
      obtain ⟨u, hu, hlen'⟩ := getFramesSize_visits multipart rest _ w' h
      refine ⟨v ++ u, ?_, ?_⟩
      · rw [hu, hv, List.append_assoc]
      · rw [List.length_append, hlen, hlen', framesResources, List.length_append]

end

theorem SizesResources.of_visits (multipart : Bool) (rs : List ArchiveResource) (size : Nat) (w : Walk)
    {p : Nat × Walk} (hsub : saved ⊆ w.uniqueSubresources)
    (h : sizeResources multipart rs size w = some p) (hv : p.2.visits = w.visits ++ fresh saved rs) :
    SizesResources saved w.uniqueSubresources rs := by
  induction rs generalizing saved size w with
  | nil =>
    rw [SizesResources]
    exact trivial
  | cons r rs ih =>
    -- the answer for `r` and the answers for the rest
    have hnext : ∀ (n : Nat) (w' : Walk) (b : Bool), w'.visits = w.visits ++ [b] →
        sizeResources multipart rs n w' = some p → keep saved r ⊆ w'.uniqueSubresources →
        b = isNew saved r ∧ SizesResources (keep saved r) w'.uniqueSubresources rs := by
      intro n w' b hw hsome hsub'
      obtain ⟨v, hv', -⟩ := sizeResources_visits multipart rs n w' hsome
      have hall : b :: v = isNew saved r :: fresh (keep saved r) rs := by
        apply @List.append_cancel_left _ w.visits
        rw [fresh] at hv
        rw [← hv, hv', hw, List.append_assoc]
        rfl
      obtain ⟨hb, hrest⟩ := List.cons.inj hall
      refine ⟨hb, ih n w' hsub' hsome ?_⟩
      rw [hv', hrest]
    have hkeep : keep saved r ⊆ r.url :: w.uniqueSubresources := by
      unfold keep
      split
      · exact List.cons_subset_cons _ hsub
      · exact List.subset_cons_of_subset _ hsub
    rw [SizesResources]
    rw [sizeResources] at h
    by_cases hknown : w.knows r = true
    · have hrec : record w.uniqueSubresources r = w.uniqueSubresources := if_pos hknown
      have hmem : r.url ∈ w.uniqueSubresources := List.contains_iff_mem.mp hknown
      have hkeep' : keep saved r ⊆ w.uniqueSubresources := by
        intro u hu
        rcases List.mem_cons.mp (hkeep hu) with rfl | hu
        · exact hmem
        · exact hu
      rw [if_pos hknown] at h
      obtain ⟨hb, hrest⟩ := hnext size (w.skip 1) false rfl h hkeep'
      rw [hrec]
      refine ⟨fun hnew => ?_, hrest⟩
      rw [hnew] at hb
      cases hb
    · have hrec : record w.uniqueSubresources r = r.url :: w.uniqueSubresources := if_neg hknown
      rw [if_neg hknown] at h
      rw [hrec]
      refine ⟨fun _ hmem => hknown (List.contains_iff_mem.mpr hmem), ?_⟩
      unfold sizeResource at h
      split at h
      · cases h
      · next n w' hone =>
        split at hone
        · obtain ⟨rfl, rfl⟩ := Prod.mk.inj (Option.some.inj hone)
          exact (hnext _ (w.add r false) false rfl h hkeep).2
        · split at hone
          · cases hone
          · obtain ⟨rfl, rfl⟩ := Prod.mk.inj (Option.some.inj hone)
            exact (hnext _ (w.add r true) true rfl h hkeep).2

mutual

theorem Sizes.of_visits (multipart : Bool) (a : MHTMLWebArchive) (saved : List WString) (w : Walk)
    {p : Nat × Walk} (hsub : saved ⊆ w.uniqueSubresources)
    (hurls : ∀ x ∈ news saved a.resources, x.url ≠ []) (h : a.getItemsSize multipart w = some p)
    (hv : p.2.visits = w.visits ++ fresh saved a.resources) : Sizes saved w.uniqueSubresources a := by
  cases a with
  | create main subresources frames =>
    rw [getItemsSize_create] at h
    rw [Sizes]
    by_cases hknown : w.uniqueSubresources.contains main.url = true
    · rw [if_pos hknown] at h ⊢
      obtain rfl := Option.some.inj h
      exact fresh_none.mp (List.append_cancel_left hv).symm
    · rw [if_neg hknown] at h ⊢
      obtain ⟨q, hq, hframes⟩ := Option.bind_eq_some_iff.mp h
      obtain ⟨v, hv₁, hlen⟩ := sizeResources_visits multipart _ _ _ hq
      obtain ⟨u, hu, -⟩ := getFramesSize_visits multipart frames q.1 q.2 hframes
      rw [resources_create, news_append] at hurls
      obtain ⟨hurls₁, hurls₂⟩ := List.forall_mem_append.mp hurls
      have hall : v ++ u = fresh saved (main :: subresources) ++
          fresh ((main :: subresources).foldl keep saved) (framesResources frames) := by
        apply @List.append_cancel_left _ w.visits
        rw [resources_create, fresh_append] at hv
        rw [← hv, hu, hv₁, List.append_assoc]
      obtain ⟨hfirst, hrest⟩ := List.append_inj hall (by rw [hlen, fresh_length])
      have hsizes := SizesResources.of_visits multipart _ _ w hsub hq (by rw [hv₁, hfirst])
      refine ⟨hsizes, ?_⟩
      rw [sizeResources_eq multipart _ _ _ hsub hsizes hurls₁] at hq
      obtain rfl := Option.some.inj hq
      exact SizesFrames.of_visits multipart frames ((main :: subresources).foldl keep saved) _ _
        (foldl_keep_subset _ hsub) hurls₂ hframes (by rw [hu, hrest])

theorem SizesFrames.of_visits (multipart : Bool) (frames : List MHTMLWebArchive) (saved : List WString)
    (size : Nat) (w : Walk) {p : Nat × Walk} (hsub : saved ⊆ w.uniqueSubresources)
    (hurls : ∀ x ∈ news saved (framesResources frames), x.url ≠ [])
    (h : getFramesSize multipart frames size w = some p)
    (hv : p.2.visits = w.visits ++ fresh saved (framesResources frames)) :
    SizesFrames saved w.uniqueSubresources frames := by
  cases frames with
  | nil =>
    rw [SizesFrames]
    exact trivial
  | cons a rest =>
    rw [getFramesSize] at h
    split at h
    · cases h
    · next len w' ha =>
      obtain ⟨v, hv₁, hlen⟩ := getItemsSize_visits multipart a w ha
      obtain ⟨u, hu, -⟩ := getFramesSize_visits multipart rest _ w' h
      rw [framesResources, news_append] at hurls
      obtain ⟨hurls₁, hurls₂⟩ := List.forall_mem_append.mp hurls
      have hall : v ++ u = fresh saved a.resources ++
          fresh (a.resources.foldl keep saved) (framesResources rest) := by
        apply @List.append_cancel_left _ w.visits
        rw [framesResources, fresh_append] at hv
        rw [← hv, hu, hv₁, List.append_assoc]
      obtain ⟨hfirst, hrest⟩ := List.append_inj hall (by rw [hlen, fresh_length])
      have hsizes := Sizes.of_visits multipart a saved w hsub hurls₁ ha (by rw [hv₁, hfirst])
      rw [SizesFrames]
      refine ⟨hsizes, ?_⟩
      obtain ⟨hsub', heq⟩ := getItemsSize_eq multipart a saved w hsub hsizes hurls₁
      rw [heq] at ha
      obtain ⟨rfl, rfl⟩ := Prod.mk.inj (Option.some.inj ha)
      exact SizesFrames.of_visits multipart rest (a.resources.foldl keep saved) _
        ⟨recordTree w.uniqueSubresources a, w.visits ++ fresh saved a.resources⟩ hsub' hurls₂ h
        (by rw [hu, hrest])

end

end

theorem news_mem {saved : List WString} {rs : List ArchiveResource} {x : ArchiveResource}
    (h : x ∈ news saved rs) : x ∈ rs ∧ x.data ≠ [] := by
  refine ⟨news_subset saved rs h, ?_⟩
  induction rs generalizing saved with
  | nil => exact absurd h List.not_mem_nil
  | cons r rs ih =>
    cases hnew : isNew saved r with
    | false =>
      rw [news_old hnew] at h
      exact ih h
    | true =>
      rw [news_new hnew] at h
      rcases List.mem_cons.mp h with rfl | h
      · have hboth : x.data.isEmpty = false ∧ saved.contains x.url = false := by simpa [isNew] using hnew
        simpa using hboth.1
      · exact ih h

/-! ## a run -/

/-- Each of the three walks takes the resources that `serializeResourceIfNew` lets through and no others, the
reported size is the number of bytes written, and each URL with a body is written once. -/
structure Agree (root : MHTMLWebArchive) (s : Serializer) (ns : List Nat) : Prop where
  counted : (root.caculateItems 0 {}).2.visits = fresh [] root.resources
  sized : ∃ p, root.getItemsSize s.multipart {} = some p ∧ p.2.visits = fresh [] root.resources
  written : (save root s ns).2.written = news [] root.resources
  size : root.getBufferSize s.items = ((save root s ns).1.length : Int)
  once : ∀ r ∈ root.resources, r.data ≠ [] → r.url ≠ [] →
    ((save root s ns).2.written.map ArchiveResource.url).count r.url = 1

section
variable {isSupportedImageMIMEType : WString → Bool} {root : MHTMLWebArchive} {s : Serializer}

theorem items_eq (h : contentSerializeStart isSupportedImageMIMEType root = some s)
    (hcounts : Counts [] root) : s.items = (news [] root.resources).length := by
  rw [(start_spec h).2.1, caculateItems_eq root 0 {} hcounts]
  exact Nat.zero_add _

theorem savedResources_eq (h : contentSerializeStart isSupportedImageMIMEType root = some s)
    (hcounts : Counts [] root) : savedResources root s.items = news [] root.resources := by
  unfold savedResources
  rw [items_eq h hcounts, List.take_length]

theorem getBufferSize_eq (h : contentSerializeStart isSupportedImageMIMEType root = some s)
    (hcounts : Counts [] root) (hsizes : Sizes [] [] root)
    (hurls : ∀ x ∈ news [] root.resources, x.url ≠ []) :
    root.getBufferSize s.items = ((pageText root s.items).length : Int) := by
  obtain ⟨-, heq⟩ := getItemsSize_eq (decide (1 < s.items)) root [] {} (List.Subset.refl _) hsizes hurls
  obtain ⟨xs, hxs⟩ := savedResources_head h
  have hmain : root.mainResource.data ≠ [] := by
    apply mainResource_ne_nil
    obtain ⟨-, hitems, hzero⟩ := start_spec h
    rw [← hitems]
    exact hzero
  have hpos : partsSize (decide (1 < s.items)) (news [] root.resources) ≠ 0 := by
    rw [← savedResources_eq h hcounts, hxs]
    unfold partsSize
    rw [List.map_cons, List.sum_cons]
    have hlen := List.length_pos_iff.mpr (part_ne_nil (decide (1 < s.items)) hmain)
    omega
  unfold getBufferSize pageText
  dsimp only
  rw [heq, savedResources_eq h hcounts]
  dsimp only
  rw [if_neg hpos, List.length_append, parts_length, Mhtml.makeMessageHeader_length]
  congr 1
  unfold boundary
  by_cases hmulti : decide (1 < s.items) = true
  · rw [if_pos hmulti, if_pos hmulti, Mhtml.makeBoundary_length, Nat.add_assoc]
  · rw [if_neg hmulti, if_neg hmulti, List.length_nil, Nat.add_assoc]

/-- **The size query.**  In a run that finishes the page the three walks and the reported size agree exactly
if a frame left out by one of the first two holds nothing new, nothing new was recorded before, and no
buffer ends at the end of a body. -/
theorem sizes_agree_iff (h : contentSerializeStart isSupportedImageMIMEType root = some s) {ns : List Nat}
    (hpos : ∀ n ∈ ns, 0 < n) :
    ((save root s ns).2.status = .END →
      (Agree root s ns ↔ Counts [] root ∧ Sizes [] [] root ∧ Misses (bodyEnds root s.items) ns)) ∧
    ((∀ r ∈ root.resources, r.data ≠ [] → r.url ≠ []) → Misses (bodyEnds root s.items) ns →
      (pageText root s.items).length ≤ ns.sum → (save root s ns).2.status = .END) := by
  have hbuffer : s.buffer = [] := by rw [(start_spec h).1]
  have hwritten : s.written = [] := by rw [(start_spec h).1]
  obtain ⟨hall, hnone, hend, htwice⟩ := save_left (start_left h) hbuffer ns hpos
    (pageText_pos root s.items) (bodyEnds_le root s.items)
  rw [hwritten] at hall hend htwice
  refine ⟨?_, ?_⟩
  · intro hst
    obtain ⟨-, hsaved, -⟩ := hend hst
    constructor
    · intro hagree
      have hcounts : Counts [] root := Counts.of_visits root 0 {} hagree.counted
      rw [savedResources_eq h hcounts] at hsaved
      obtain ⟨p, hp, hv⟩ := hagree.sized
      refine ⟨hcounts, Sizes.of_visits _ root [] {} (List.Subset.refl _) hsaved hp hv, ?_⟩
      by_contra hmiss
      obtain ⟨-, v, hv, hnodup⟩ := htwice hmiss hst
      apply hnodup
      rw [hagree.written, List.nil_append] at hv
      rw [← hv]
      exact List.Pairwise.of_map ArchiveResource.url (fun a b hne heq => hne (congrArg _ heq))
        (news_nodup [] root.resources).1
    · intro hcond
      obtain ⟨hcounts, hsizes, hmiss⟩ := hcond
      have hsum : (pageText root s.items).length ≤ ns.sum := by
        by_contra hlt
        exact hnone hmiss (Nat.lt_of_not_le hlt) hst
      obtain ⟨-, hbytes, hnews⟩ := hall hmiss hsum hsaved
      rw [List.nil_append] at hnews
      rw [savedResources_eq h hcounts] at hsaved hnews
      refine ⟨?_, ?_, hnews, ?_, ?_⟩
      · rw [caculateItems_eq root 0 {} hcounts]
        rfl
      · exact ⟨_, (getItemsSize_eq s.multipart root [] {} (List.Subset.refl _) hsizes hsaved).2, rfl⟩
      · rw [hbytes]
        exact getBufferSize_eq h hcounts hsizes hsaved
      · intro r hr hdata _
        rw [hnews]
        apply List.count_eq_one_of_mem (news_nodup [] root.resources).1
        exact (news_complete [] hr hdata).resolve_left List.not_mem_nil
  · intro hurls hmiss hsum
    refine (hall hmiss hsum ?_).1
    intro x hx
    have hx : x ∈ news [] root.resources := List.mem_of_mem_take hx
    obtain ⟨hmem, hdata⟩ := news_mem hx
    exact hurls x hmem hdata

end

end MHTMLWebArchive

/-! ## a frame with an empty main resource -/

namespace Sample

/-- a page of a resource of its own and a frame with another -/
def framedPage : MHTMLWebArchive :=
  .create ⟨[0x75], [0x74], [], [1, 2, 3]⟩ [⟨[0x73], [0x74], [], [5]⟩]
    [.create ⟨[0x66], [0x74], [], [6, 7]⟩ [⟨[0x76], [0x74], [], [4]⟩] []]

/-- the frame is empty, and a script has put an image into it -/
def emptyFrame : MHTMLWebArchive :=
  .create ⟨[0x75], [0x74], [], [1, 2, 3]⟩ []
    [.create ⟨[0x66], [0x74], [], []⟩ [⟨[0x76], [0x74], [], [4]⟩] []]

end Sample

open MHTMLWebArchive Sample

theorem sizes_agree_iff_framed : contentSerializeStart noImage framedPage = some { items := 4 } ∧
    (save framedPage { items := 4 } [30, 700]).2.status = .END ∧ Agree framedPage { items := 4 } [30, 700] := by
  have hstart : contentSerializeStart noImage framedPage = some { items := 4 } := rfl
  have hboth := sizes_agree_iff hstart (show ∀ n ∈ [30, 700], 0 < n by decide)
  have hmiss : Serializer.Misses (bodyEnds framedPage 4) [30, 700] := by
    have hall : ∀ pre ∈ [30, 700].inits, pre ≠ [] → pre.sum ∉ bodyEnds framedPage 4 := by decide +kernel
    intro pre hpre
    exact hall pre ((List.mem_inits _ _).mpr hpre)
  have hend := hboth.2 (by decide) hmiss (by decide +kernel)
  refine ⟨hstart, hend, (hboth.1 hend).mpr ⟨?_, ?_, hmiss⟩⟩
  · simp [framedPage, Counts, CountsFrames, isNew, keep]
  · simp [framedPage, Sizes, SizesFrames, SizesResources, isNew, keep, record]

/-- the image is counted in the size, and it is not written -/
theorem sizes_disagree_frame : contentSerializeStart noImage emptyFrame = some { items := 1 } ∧
    (save emptyFrame { items := 1 } [200]).2.status = .END ∧
    emptyFrame.getBufferSize 1 ≠ ((save emptyFrame { items := 1 } [200]).1.length : Int) ∧
    ((save emptyFrame { items := 1 } [200]).2.written.map ArchiveResource.url).count [0x76] = 0 :=
  ⟨rfl, by decide +kernel, by decide +kernel, by decide +kernel⟩

end Wkc
