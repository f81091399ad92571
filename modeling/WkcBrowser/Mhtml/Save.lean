import Mathlib.Data.List.Infix
import Mathlib.Data.List.Perm.Subperm
import WkcBrowser.Mhtml.Stages

/-!
# Saving a page in pieces

The bytes of a saved page should not depend on the lengths of the buffers it is written to.  They do: if a
buffer is full exactly at the end of a body, `serializeResource` leaves before it counts the resource and
reports it as saved, and the next call writes the same part again.

* `news`                the resources a walk still has to save;
* `parts`, `ends`       the text of the parts, and where the bodies end in it;
* `Left`                what is left to write between two calls;
* `Outcome`             what one call does;
* `save_left`           what a run does;
* `save_pieces_iff`     the bytes are those of a single call exactly if no buffer ends where a body does.
-/

namespace Wkc
namespace Serializer

/-- the resources that are saved when a walk with this set meets `rs` -/
def news (seen : List WString) : List ArchiveResource → List ArchiveResource
  | [] => []
  | r :: rs =>
    if r.data.isEmpty then news seen rs
    else if seen.contains r.url then news seen rs
    else r :: news (r.url :: seen) rs

def parts (multipart : Bool) : List ArchiveResource → Bytes
  | [] => boundary multipart true
  | r :: rs => part multipart r ++ parts multipart rs

/-- where the bodies end, if the first part begins at `o` -/
def ends (multipart : Bool) : Nat → List ArchiveResource → List Nat
  | _, [] => []
  | o, r :: rs => (o + (part multipart r).length) :: ends multipart (o + (part multipart r).length) rs

theorem ends_add (multipart : Bool) (k o : Nat) (rs : List ArchiveResource) :
    ends multipart (k + o) rs = (ends multipart o rs).map (k + ·) := by
  induction rs generalizing o with
  | nil => rfl
  | cons r rs ih =>
    rw [ends, ends, List.map_cons, Nat.add_assoc, ih]

theorem ends_bound (multipart : Bool) (o : Nat) (rs : List ArchiveResource) :
    ∀ e ∈ ends multipart o rs, o ≤ e ∧ e ≤ o + (parts multipart rs).length := by
  induction rs generalizing o with
  | nil => exact fun e he => absurd he List.not_mem_nil
  | cons r rs ih =>
    intro e he
    rw [parts, List.length_append]
    rcases List.mem_cons.mp he with rfl | he
    · omega
    · have hb := ih _ e he
      omega

/-! ## the resources that are new -/

theorem news_spec {seen : List WString} {rs xs : List ArchiveResource} {x : ArchiveResource}
    (h : news seen rs = x :: xs) :
    x.data ≠ [] ∧ x.url ∉ seen ∧ x ∈ rs ∧ news (x.url :: seen) rs = xs := by
  induction rs with
  | nil => cases h
  | cons r rs ih =>
    rw [news] at h
    split at h
    · next hempty =>
      obtain ⟨hdata, hurl, hmem, hnext⟩ := ih h
      refine ⟨hdata, hurl, List.mem_cons_of_mem _ hmem, ?_⟩
      rw [news, if_pos hempty]
      exact hnext
    · next hempty =>
      split at h
      · next hseen =>
        obtain ⟨hdata, hurl, hmem, hnext⟩ := ih h
        refine ⟨hdata, hurl, List.mem_cons_of_mem _ hmem, ?_⟩
        have hseen' : (x.url :: seen).contains r.url = true := by
          rw [List.contains_iff_mem] at hseen ⊢
          exact List.mem_cons_of_mem _ hseen
        rw [news, if_neg hempty, if_pos hseen']
        exact hnext
      · next hseen =>
        obtain ⟨rfl, htail⟩ := List.cons.inj h
        refine ⟨by simpa using hempty, ?_, List.mem_cons_self, ?_⟩
        · simpa using hseen
        · have hself : (r.url :: seen).contains r.url = true := by simp
          rw [news, if_neg hempty, if_pos hself]
          exact htail

theorem news_nodup (seen : List WString) (rs : List ArchiveResource) :
    ((news seen rs).map ArchiveResource.url).Nodup ∧ ∀ x ∈ news seen rs, x.url ∉ seen := by
  induction rs generalizing seen with
  | nil => exact ⟨List.nodup_nil, fun x hx => absurd hx List.not_mem_nil⟩
  | cons r rs ih =>
    rw [news]
    split
    · exact ih seen
    · split
      · exact ih seen
      · next hseen =>
        obtain ⟨hnodup, hnot⟩ := ih (r.url :: seen)
        refine ⟨?_, ?_⟩
        · rw [List.map_cons, List.nodup_cons]
          refine ⟨?_, hnodup⟩
          intro hmem
          obtain ⟨x, hx, hxu⟩ := List.mem_map.mp hmem
          exact hnot x hx (by rw [hxu]; exact List.mem_cons_self)
        · intro x hx
          rcases List.mem_cons.mp hx with rfl | hx
          · simpa using hseen
          · exact fun hmem => hnot x hx (List.mem_cons_of_mem _ hmem)

theorem news_subset (seen : List WString) (rs : List ArchiveResource) : news seen rs ⊆ rs := by
  induction rs generalizing seen with
  | nil => exact List.Subset.refl _
  | cons r rs ih =>
    rw [news]
    split
    · exact List.subset_cons_of_subset r (ih seen)
    · split
      · exact List.subset_cons_of_subset r (ih seen)
      · exact List.cons_subset_cons r (ih _)

theorem news_complete (seen : List WString) {rs : List ArchiveResource} {r : ArchiveResource}
    (hr : r ∈ rs) (hdata : r.data ≠ []) :
    r.url ∈ seen ∨ r.url ∈ (news seen rs).map ArchiveResource.url := by
  induction rs generalizing seen with
  | nil => exact absurd hr List.not_mem_nil
  | cons x rs ih =>
    rw [news]
    rcases List.mem_cons.mp hr with rfl | hr
    · rw [if_neg (by simpa using hdata)]
      split
      · next hseen => exact .inl (by simpa using hseen)
      · exact .inr (by rw [List.map_cons]; exact List.mem_cons_self)
    · split
      · exact ih seen hr
      · split
        · exact ih seen hr
        · rcases ih (x.url :: seen) hr with hmem | hmem
          · rcases List.mem_cons.mp hmem with heq | hmem
            · exact .inr (by rw [List.map_cons, heq]; exact List.mem_cons_self)
            · exact .inl hmem
          · exact .inr (by rw [List.map_cons]; exact List.mem_cons_of_mem _ hmem)

/-! ## the walk as a loop -/

theorem serializeResources_append (xs ys : List ArchiveResource) (s : Serializer)
    (h : xs ≠ [] ∨ s.stopped = false) :
    serializeResources (xs ++ ys) s =
      if (serializeResources xs s).stopped then serializeResources xs s
      else serializeResources ys (serializeResources xs s) := by
  induction xs generalizing s with
  | nil =>
    have hgo : s.stopped = false := h.resolve_left (not_not_intro rfl)
    show serializeResources ys s = if s.stopped then s else serializeResources ys s
    rw [hgo]
    rfl
  | cons x xs ih =>
    rw [List.cons_append, serializeResources, serializeResources]
    by_cases hstop : (serializeResourceIfNew x s).stopped = true
    · rw [if_pos hstop, if_pos hstop, if_pos hstop]
    · rw [if_neg hstop, if_neg hstop]
      exact ih _ (.inr (by simpa using hstop))

mutual

theorem serializeTree_eq (a : MHTMLWebArchive) (s : Serializer) :
    serializeTree a s = serializeResources a.resources s := by
  cases a with
  | create main subresources frames =>
    rw [serializeTree, MHTMLWebArchive.resources, serializeResources]
    by_cases hmain : (serializeResourceIfNew main s).stopped = true
    · rw [if_pos hmain, if_pos hmain]
    · have hgo : (serializeResourceIfNew main s).stopped = false := by simpa using hmain
      rw [if_neg hmain, if_neg hmain, serializeResources_append _ _ _ (.inr hgo)]
      by_cases hsub : (serializeResources subresources (serializeResourceIfNew main s)).stopped = true
      · rw [if_pos hsub, if_pos hsub]
      · rw [if_neg hsub, if_neg hsub]
        exact serializeFrames_eq frames _

theorem serializeFrames_eq (frames : List MHTMLWebArchive) (s : Serializer) :
    serializeFrames frames s = serializeResources (MHTMLWebArchive.framesResources frames) s := by
  cases frames with
  | nil => rfl
  | cons a rest =>
    have hne : a.resources ≠ [] := by
      cases a with
      | create main subresources frames =>
        rw [MHTMLWebArchive.resources]
        exact List.cons_ne_nil _ _
    rw [serializeFrames, MHTMLWebArchive.framesResources, serializeResources_append _ _ _ (.inl hne)]
    rw [serializeTree_eq a s]
    by_cases hstop : (serializeResources a.resources s).stopped = true
    · rw [if_pos hstop, if_pos hstop]
    · rw [if_neg hstop, if_neg hstop]
      exact serializeFrames_eq rest _

end

/-! ## one call -/

/-- What is left to save of a tree with the resources `rs`: the resources `xs`, the text `R`, in which
bodies end at `E`.  In the second case only the last boundary is left, and the last resource is not yet
known as saved. -/
inductive Left (rs : List ArchiveResource) (s : Serializer) :
    List ArchiveResource → Bytes → List Nat → Prop
  | item (r : ArchiveResource) (xs : List ArchiveResource) (ready : s.Ready)
      (news : (news s.uniqueSubresources rs).take (xs.length + 1) = r :: xs)
      (count : s.curItem + xs.length = s.items) (begun : s.begun = true → r.url ≠ []) :
      Left rs s (r :: xs) (s.lead r ++ parts s.multipart xs)
        ((s.lead r).length :: ends s.multipart (s.lead r).length xs)
  | last (R : Bytes) (fin : s.Finishing R) (news : news s.uniqueSubresources rs ≠ []) : Left rs s [] R []

/-- What a call has done, with `s.bufferLen` bytes to fill: the buffer ends at the end of a body, the page
is finished, something else is left, or a resource has no URL. -/
inductive Outcome (rs : List ArchiveResource) (s : Serializer) (xs : List ArchiveResource) (R : Bytes)
    (E : List Nat) (t : Serializer) : Prop
  | hit (ys zs : List ArchiveResource) (r : ArchiveResource) (R' : Bytes) (E' : List Nat)
      (mem : s.bufferLen ∈ E) (split : xs = ys ++ r :: zs)
      (buffer : t.buffer = s.buffer ++ R.take s.bufferLen) (written : t.written = s.written ++ (ys ++ [r]))
      (left : Left rs t (r :: zs) R' E') (again : R.length < s.bufferLen + R'.length)
      (fits : s.bufferLen ≤ R.length) (urls : ∀ y ∈ ys, y.url ≠ [])
  | finished (miss : s.bufferLen ∉ E) (enough : R.length ≤ s.bufferLen) (status : t.status = .END)
      (buffer : t.buffer = s.buffer ++ R) (written : t.written = s.written ++ xs)
      (urls : ∀ x ∈ xs, x.url ≠ [])
  | more (ys zs : List ArchiveResource) (E' : List Nat) (miss : s.bufferLen ∉ E)
      (short : s.bufferLen < R.length) (split : xs = ys ++ zs)
      (buffer : t.buffer = s.buffer ++ R.take s.bufferLen) (written : t.written = s.written ++ ys)
      (left : Left rs t zs (R.drop s.bufferLen) E')
      (shift : ∀ p, 0 < p → (p ∈ E' ↔ s.bufferLen + p ∈ E)) (urls : ∀ y ∈ ys, y.url ≠ [])
  | failed (x : ArchiveResource) (mem : x ∈ xs) (url : x.url = []) (status : t.status = .ERROR)

section
variable {s : Serializer} {rs : List ArchiveResource}

theorem multipart_of_items {t : Serializer} (h : t.items = s.items) : t.multipart = s.multipart := by
  unfold multipart
  rw [h]

theorem stopped_of_full (h : s.bufferLen = 0) : s.stopped = true := by
  unfold stopped
  rw [h]
  rfl

theorem stopped_of_end (h : s.status = .END) : s.stopped = true := by
  unfold stopped
  rw [h]
  simp

theorem stopped_of_error (h : s.status = .ERROR) : s.stopped = true := by
  unfold stopped
  rw [h]
  simp

theorem Outcome.next {t u : Serializer} {xs ys : List ArchiveResource} {r : ArchiveResource}
    {T R : Bytes} {E E' : List Nat} (hlong : T.length < s.bufferLen) (hbuffer : t.buffer = s.buffer ++ T)
    (hlen : t.bufferLen = s.bufferLen - T.length) (hwritten : t.written = s.written ++ [r])
    (hxs : xs = r :: ys) (hE : E = T.length :: E'.map (T.length + ·)) (hr : r.url ≠ [])
    (h : Outcome rs t ys R E' u) : Outcome rs s xs (T ++ R) E u := by
  have hTR : (T ++ R).length = T.length + R.length := List.length_append
  have hmem : ∀ p, T.length < p → (p ∈ E ↔ p - T.length ∈ E') := by
    intro p hp
    rw [hE, List.mem_cons, List.mem_map]
    constructor
    · rintro (heq | ⟨e, he, heq⟩)
      · omega
      · have hpe : p - T.length = e := by omega
        rw [hpe]
        exact he
    · intro he
      exact .inr ⟨p - T.length, he, by omega⟩
  have htake : s.buffer ++ T ++ R.take t.bufferLen = s.buffer ++ (T ++ R).take s.bufferLen := by
    rw [hlen, List.take_append, List.take_of_length_le hlong.le, List.append_assoc]
  have hcons : ∀ zs : List ArchiveResource, (∀ z ∈ zs, z.url ≠ []) → ∀ z ∈ r :: zs, z.url ≠ [] :=
    fun zs hzs => List.forall_mem_cons.mpr ⟨hr, hzs⟩
  cases h with
  | hit zs₁ zs₂ x R' E'' mem split buffer written left again fits urls =>
    refine .hit (r :: zs₁) zs₂ x R' E'' ?_ ?_ ?_ ?_ left (by omega) (by omega) (hcons _ urls)
    · rw [hmem _ hlong, ← hlen]
      exact mem
    · rw [hxs, split]
      rfl
    · rw [buffer, hbuffer, htake]
    · rw [written, hwritten, List.append_assoc]
      rfl
  | finished miss enough status buffer written urls =>
    refine .finished ?_ (by omega) status ?_ ?_ (by rw [hxs]; exact hcons _ urls)
    · rw [hmem _ hlong, ← hlen]
      exact miss
    · rw [buffer, hbuffer, List.append_assoc]
    · rw [written, hwritten, hxs, List.append_assoc]
      rfl
  | more zs₁ zs₂ E'' miss short split buffer written left shift urls =>
    have hdrop : (T ++ R).drop s.bufferLen = R.drop t.bufferLen := by
      rw [hlen, List.drop_append, List.drop_eq_nil_of_le hlong.le, List.nil_append]
    refine .more (r :: zs₁) zs₂ E'' ?_ (by omega) ?_ ?_ ?_ ?_ ?_ (hcons _ urls)
    · rw [hmem _ hlong, ← hlen]
      exact miss
    · rw [hxs, split]
      rfl
    · rw [buffer, hbuffer, htake]
    · rw [written, hwritten, List.append_assoc]
      rfl
    · rw [hdrop]
      exact left
    · intro p hp
      rw [shift p hp, hmem _ (by omega)]
      have heq : t.bufferLen + p = s.bufferLen + p - T.length := by omega
      rw [heq]
  | failed x mem url status =>
    refine .failed x ?_ url status
    rw [hxs]
    exact List.mem_cons_of_mem _ mem

theorem Ready.boundary {t : Serializer} (status : t.status = .MAKE_BOUNDARY) (data : t.data = none)
    (off : t.dataOff = 0) (item : t.curItem ≤ t.items) : t.Ready := by
  refine ⟨?_, ?_, item, ?_, fun _ => data⟩
  · rw [status]
    exact SerializeState.noConfusion
  · rw [status]
    exact SerializeState.noConfusion
  · rw [off]
    exact Nat.zero_le _

theorem lead_boundary {t : Serializer} (status : t.status = .MAKE_BOUNDARY) (r : ArchiveResource) :
    t.lead r = part t.multipart r := by
  unfold Serializer.lead
  rw [status]

theorem Left.same {r : ArchiveResource} {xs : List ArchiveResource} {t : Serializer}
    (hnews : (news s.uniqueSubresources rs).take (xs.length + 1) = r :: xs)
    (hcount : s.curItem + xs.length = s.items) (ready : t.Ready) (same : Same s t) (item : t.curItem = s.curItem)
    (begun : t.begun = true → r.url ≠ []) : Left rs t (r :: xs) (t.lead r ++ parts t.multipart xs)
      ((t.lead r).length :: ends t.multipart (t.lead r).length xs) := by
  refine .item r xs ready ?_ ?_ begun
  · rw [same.unique]
    exact hnews
  · rw [item, same.items]
    exact hcount

theorem ends_behind (multipart : Bool) (n b : Nat) (xs : List ArchiveResource) (p : Nat) :
    p ∈ b :: ends multipart b xs ↔ n + p ∈ (n + b) :: ends multipart (n + b) xs := by
  rw [ends_add, List.mem_cons, List.mem_cons, List.mem_map]
  constructor
  · rintro (heq | he)
    · exact .inl (by omega)
    · exact .inr ⟨p, he, rfl⟩
  · rintro (heq | ⟨e, he, heq⟩)
    · exact .inl (by omega)
    · have hpe : p = e := by omega
      rw [hpe]
      exact .inr he

theorem Outcome.stops {r : ArchiveResource} {xs : List ArchiveResource} {t : Serializer}
    (hnews : (news s.uniqueSubresources rs).take (xs.length + 1) = r :: xs)
    (hcount : s.curItem + xs.length = s.items) (hr : r.data ≠ []) (h : Written r s (s.lead r) (false, t)) :
    t.stopped = true ∧ Outcome rs s (r :: xs) (s.lead r ++ parts s.multipart xs)
      ((s.lead r).length :: ends s.multipart (s.lead r).length xs) t := by
  have hbound := ends_bound s.multipart (s.lead r).length xs
  cases h with
  | full _ short ready lead buffer none same item written begun =>
    have hmulti := multipart_of_items same.items
    refine ⟨stopped_of_full none, ?_⟩
    have hR : (s.lead r ++ parts s.multipart xs).drop s.bufferLen = t.lead r ++ parts t.multipart xs := by
      rw [List.drop_append_of_le_length short.le, lead, hmulti]
    refine .more [] (r :: xs) ((t.lead r).length :: ends t.multipart (t.lead r).length xs) ?_ ?_ rfl ?_ ?_
      ?_ ?_ (fun y hy => absurd hy List.not_mem_nil)
    · intro hmem
      rcases List.mem_cons.mp hmem with heq | hmem
      · omega
      · have hb := hbound _ hmem
        omega
    · rw [List.length_append]
      omega
    · rw [buffer, List.take_append_of_le_length short.le]
    · rw [written, List.append_nil]
    · rw [hR]
      exact .same hnews hcount ready same item begun
    · intro p _
      have hlen : (s.lead r).length = s.bufferLen + (t.lead r).length := by
        rw [lead, List.length_drop]
        omega
      rw [hlen, hmulti]
      exact ends_behind s.multipart s.bufferLen (t.lead r).length xs p
  | exact _ fits status data off buffer none same item written url =>
    have hmulti := multipart_of_items same.items
    refine ⟨stopped_of_full none, ?_⟩
    have hready : t.Ready := .boundary status data off (by rw [item, same.items]; omega)
    have hlead : t.lead r = part s.multipart r := by rw [lead_boundary status, hmulti]
    refine .hit [] xs r _ _ ?_ rfl ?_ ?_ (.same hnews hcount hready same item fun _ => url) ?_ ?_ (fun y hy => absurd hy List.not_mem_nil)
    · rw [fits]
      exact List.mem_cons_self
    · rw [buffer, fits, List.take_left]
    · rw [written]
      rfl
    · have hpos := List.length_pos_iff.mpr (part_ne_nil s.multipart hr)
      rw [List.length_append, List.length_append, hlead, hmulti]
      omega
    · rw [List.length_append]
      omega
  | last _ long end_ buffer left same item written url =>
    have hxs : xs = [] := by
      apply List.length_eq_zero_iff.mp
      omega
    subst hxs
    have hmiss : s.bufferLen ∉ (s.lead r).length :: ends s.multipart (s.lead r).length [] := by
      intro hmem
      rcases List.mem_cons.mp hmem with heq | hmem
      · omega
      · exact absurd hmem List.not_mem_nil
    have hurl : ∀ y ∈ [r], y.url ≠ [] := List.forall_mem_singleton.mpr url
    rcases left with ⟨henough, hend⟩ | ⟨hshort, hzero, hfin⟩
    · refine ⟨stopped_of_end hend, .finished hmiss ?_ hend ?_ written hurl⟩
      · rw [parts, List.length_append]
        omega
      · rw [buffer, parts, List.take_of_length_le henough, List.append_assoc]
    · refine ⟨stopped_of_full hzero, .more [r] [] [] hmiss ?_ rfl ?_ written ?_ ?_ hurl⟩
      · rw [parts, List.length_append]
        omega
      · rw [buffer, parts, List.take_append, List.take_of_length_le long.le, List.append_assoc]
      · rw [parts, List.drop_append, List.drop_eq_nil_of_le long.le, List.nil_append]
        refine .last _ hfin ?_
        rw [same.unique]
        intro hnil
        rw [hnil] at hnews
        cases hnews
      · intro p _
        constructor
        · exact fun hp => absurd hp List.not_mem_nil
        · intro hp
          rcases List.mem_cons.mp hp with heq | hp
          · omega
          · exact absurd hp List.not_mem_nil
  | failed _ url status =>
    exact ⟨stopped_of_error status, .failed r List.mem_cons_self url status⟩

theorem not_stopped (hn : s.bufferLen ≠ 0) (hend : s.status ≠ .END) (hok : s.status ≠ .ERROR) :
    s.stopped = false := by
  unfold stopped
  simp [hn, hend, hok]

theorem serializeResourceIfNew_old {r : ArchiveResource} (h : r.data.isEmpty = true ∨
    s.uniqueSubresources.contains r.url = true) : s.serializeResourceIfNew r = s := by
  unfold serializeResourceIfNew
  by_cases hempty : r.data.isEmpty = true
  · rw [if_pos hempty]
  · rw [if_neg hempty, if_pos (h.resolve_left hempty)]

/-- the writer when it has taken down that a resource is saved -/
def marked (t : Serializer) (r : ArchiveResource) : Serializer :=
  { t with uniqueSubresources := r.url :: t.uniqueSubresources }

theorem outcome_item (suffix : List ArchiveResource) {r : ArchiveResource} {xs : List ArchiveResource}
    (hready : s.Ready) (hn : s.bufferLen ≠ 0)
    (hsuffix : news s.uniqueSubresources suffix = news s.uniqueSubresources rs)
    (hnews : (news s.uniqueSubresources rs).take (xs.length + 1) = r :: xs)
    (hcount : s.curItem + xs.length = s.items) (hbegun : s.begun = true → r.url ≠ []) :
    Outcome rs s (r :: xs) (s.lead r ++ parts s.multipart xs)
      ((s.lead r).length :: ends s.multipart (s.lead r).length xs) (serializeResources suffix s) := by
  have hgo := not_stopped hn hready.goes hready.ok
  induction suffix generalizing s r xs with
  | nil =>
    rw [← hsuffix] at hnews
    cases hnews
  | cons y suffix ih =>
    rw [serializeResources]
    by_cases hempty : y.data.isEmpty = true
    · rw [serializeResourceIfNew_old (.inl hempty), hgo]
      rw [news, if_pos hempty] at hsuffix
      exact ih hready hn hsuffix hnews hcount hbegun hgo
    · by_cases hseen : s.uniqueSubresources.contains y.url = true
      · rw [serializeResourceIfNew_old (.inr hseen), hgo]
        rw [news, if_neg hempty, if_pos hseen] at hsuffix
        exact ih hready hn hsuffix hnews hcount hbegun hgo
      · rw [news, if_neg hempty, if_neg hseen] at hsuffix
        have hhead := hnews
        rw [← hsuffix, List.take_succ_cons] at hhead
        obtain ⟨rfl, htail⟩ := List.cons.inj hhead
        have hdata : y.data ≠ [] := by simpa using hempty
        have hrest := (news_spec hsuffix.symm).2.2.2
        have hw := serializeResource_written hready hn hdata hbegun
        have hnew : s.serializeResourceIfNew y =
            if (s.serializeResource y).1 then (s.serializeResource y).2.marked y else (s.serializeResource y).2 := by
          unfold serializeResourceIfNew
          rw [if_neg hempty, if_neg hseen]
          rfl
        rw [hnew]
        generalize s.serializeResource y = res at hw ⊢
        obtain ⟨saved, t⟩ := res
        cases saved with
        | false =>
          obtain ⟨hstop, hout⟩ := Outcome.stops hnews hcount hdata hw
          have hstop : t.stopped = true := hstop
          show Outcome rs s _ _ _ (if t.stopped then t else serializeResources suffix t)
          rw [if_pos hstop]
          exact hout
        | true =>
          cases hw with
          | next _ long more status data off buffer left same item written url =>
            cases xs with
            | nil =>
              rw [List.length_nil] at hcount
              omega
            | cons x xs =>
              have hn' : (t.marked y).bufferLen ≠ 0 := by
                show t.bufferLen ≠ 0
                omega
              have hready' : (t.marked y).Ready := by
                refine .boundary status data off ?_
                show t.curItem ≤ t.items
                rw [item, same.items]
                exact more
              have hgo' := not_stopped hn' hready'.goes hready'.ok
              have hset : (t.marked y).uniqueSubresources = y.url :: s.uniqueSubresources := by
                rw [← same.unique]
                rfl
              have hout := ih hready' hn' (by rw [hset, hrest]) (by rw [hset, hrest]; exact htail)
                (by
                  show t.curItem + xs.length = t.items
                  rw [item, same.items, ← hcount, List.length_cons]
                  omega)
                (fun hb => not_begun (.inr (.inl status)) hb) hgo'
              have hmulti : (t.marked y).multipart = s.multipart := multipart_of_items same.items
              rw [lead_boundary (t := t.marked y) status x, hmulti] at hout
              show Outcome rs s _ _ _ (if (t.marked y).stopped then _ else _)
              rw [hgo']
              refine Outcome.next (t := t.marked y) long buffer left written rfl ?_ url hout
              have hends := ends_add s.multipart (s.lead y).length 0 (x :: xs)
              rw [Nat.add_zero] at hends
              rw [hends, ends, Nat.zero_add]

theorem outcome_last (suffix : List ArchiveResource) {R : Bytes} (hfin : s.Finishing R)
    (hn : s.bufferLen ≠ 0) (hsuffix : news s.uniqueSubresources suffix ≠ [])
    (hnews : news s.uniqueSubresources rs ≠ []) :
    Outcome rs s [] R [] (serializeResources suffix s) := by
  have hgo : s.stopped = false := by
    apply not_stopped hn
    all_goals
      rw [hfin.status]
      exact SerializeState.noConfusion
  induction suffix with
  | nil => exact absurd rfl hsuffix
  | cons y suffix ih =>
    rw [serializeResources]
    by_cases hempty : y.data.isEmpty = true
    · rw [serializeResourceIfNew_old (.inl hempty), hgo]
      rw [news, if_pos hempty] at hsuffix
      exact ih hsuffix
    · by_cases hseen : s.uniqueSubresources.contains y.url = true
      · rw [serializeResourceIfNew_old (.inr hseen), hgo]
        rw [news, if_neg hempty, if_pos hseen] at hsuffix
        exact ih hsuffix
      · obtain ⟨t, heq, hbuffer, hsame, _, hwritten, hleft⟩ := writeBoundary_finishing hfin
        have hnew : s.serializeResourceIfNew y = t := by
          unfold serializeResourceIfNew serializeResource fromBoundary
          rw [if_neg hempty, if_neg hseen, hfin.status, heq]
          rfl
        rw [hnew]
        have hmiss : s.bufferLen ∉ ([] : List Nat) := List.not_mem_nil
        rcases hleft with ⟨henough, hend⟩ | ⟨hshort, hzero, hfin'⟩
        · rw [if_pos (stopped_of_end hend)]
          refine .finished hmiss henough hend ?_ ?_ (fun y hy => absurd hy List.not_mem_nil)
          · rw [hbuffer, List.take_of_length_le henough]
          · rw [hwritten, List.append_nil]
        · rw [if_pos (stopped_of_full hzero)]
          refine .more [] [] [] hmiss hshort rfl hbuffer ?_ ?_ ?_
            (fun y hy => absurd hy List.not_mem_nil)
          · rw [hwritten, List.append_nil]
          · refine .last _ hfin' ?_
            rw [hsame.unique]
            exact hnews
          · intro p _
            exact ⟨fun hp => absurd hp List.not_mem_nil, fun hp => absurd hp List.not_mem_nil⟩

theorem Left.rebuffer {xs : List ArchiveResource} {R : Bytes} {E : List Nat} (h : Left rs s xs R E)
    (buffer : Bytes) (n : Nat) : Left rs { s with buffer := buffer, bufferLen := n } xs R E := by
  cases h with
  | item r xs ready news count begun =>
    exact .item (s := { s with buffer := buffer, bufferLen := n }) r xs
      ⟨ready.goes, ready.ok, ready.item, ready.off, ready.blank⟩ news count begun
  | last R fin news =>
    exact .last _ ⟨fin.status, fin.data, fin.off, fin.rest, fin.more, fin.item⟩ news

theorem Left.outcome {xs : List ArchiveResource} {R : Bytes} {E : List Nat} (h : Left rs s xs R E)
    (hn : s.bufferLen ≠ 0) : Outcome rs s xs R E (serializeResources rs s) := by
  cases h with
  | item r xs ready news count begun => exact outcome_item rs ready hn rfl news count begun
  | last R fin news => exact outcome_last rs fin hn news news

theorem Left.status {xs : List ArchiveResource} {R : Bytes} {E : List Nat} (h : Left rs s xs R E) :
    s.status ≠ .END ∧ s.status ≠ .ERROR := by
  cases h with
  | item r xs ready news count begun => exact ⟨ready.goes, ready.ok⟩
  | last R fin news =>
    rw [fin.status]
    exact ⟨SerializeState.noConfusion, SerializeState.noConfusion⟩

end

/-! ## a run -/

/-- no buffer ends at one of the places `E` -/
def Misses (E : List Nat) (ns : List Nat) : Prop := ∀ pre, pre <+: ns → pre ≠ [] → pre.sum ∉ E

theorem sum_pos {ns : List Nat} (hpos : ∀ m ∈ ns, 0 < m) (hne : ns ≠ []) : 0 < ns.sum := by
  obtain ⟨n, ns, rfl⟩ := List.exists_cons_of_ne_nil hne
  rw [List.sum_cons]
  exact Nat.add_pos_left (hpos n List.mem_cons_self) _

theorem Misses.cons {E E' : List Nat} {n : Nat} {ns : List Nat} (hpos : ∀ m ∈ ns, 0 < m) (hn : n ∉ E)
    (hshift : ∀ p, 0 < p → (p ∈ E' ↔ n + p ∈ E)) : Misses E (n :: ns) ↔ Misses E' ns := by
  constructor
  · intro h pre hpre hne hmem
    have hsum := sum_pos (fun m hm => hpos m (hpre.subset hm)) hne
    apply h (n :: pre) (List.cons_prefix_cons.mpr ⟨rfl, hpre⟩) (List.cons_ne_nil _ _)
    rw [List.sum_cons]
    exact (hshift _ hsum).mp hmem
  · intro h pre hpre hne hmem
    obtain ⟨m, more, rfl⟩ := List.exists_cons_of_ne_nil hne
    obtain ⟨hm, hmore⟩ := List.cons_prefix_cons.mp hpre
    rw [List.sum_cons, hm] at hmem
    by_cases hnil : more = []
    · rw [hnil, List.sum_nil, Nat.add_zero] at hmem
      exact hn hmem
    · have hsum := sum_pos (fun k hk => hpos k (hmore.subset hk)) hnil
      exact h more hmore hnil ((hshift _ hsum).mpr hmem)

theorem save_end {root : MHTMLWebArchive} {s : Serializer} (hend : s.status = .END)
    (hbuffer : s.buffer = []) (ns : List Nat) :
    (save root s ns).1 = [] ∧ (save root s ns).2.status = .END ∧
      (save root s ns).2.written = s.written := by
  have hnew : ∀ (t : Serializer) (r : ArchiveResource), t.status = .END →
      (t.serializeResourceIfNew r).status = .END ∧ (t.serializeResourceIfNew r).buffer = t.buffer ∧
        (t.serializeResourceIfNew r).written = t.written := by
    intro t r ht
    unfold serializeResourceIfNew serializeResource
    rw [ht]
    split
    · exact ⟨ht, rfl, rfl⟩
    · split <;> exact ⟨ht, rfl, rfl⟩
  have hcall : ∀ (t : Serializer) (rs : List ArchiveResource), t.status = .END →
      (serializeResources rs t).status = .END ∧ (serializeResources rs t).buffer = t.buffer ∧
        (serializeResources rs t).written = t.written := by
    intro t rs ht
    cases rs with
    | nil => exact ⟨ht, rfl, rfl⟩
    | cons r rs =>
      have hr := hnew t r ht
      rw [serializeResources, if_pos (stopped_of_end hr.1)]
      exact hr
  induction ns generalizing s with
  | nil => exact ⟨rfl, hend, rfl⟩
  | cons n ns ih =>
    obtain ⟨hstatus, hbuf, hwritten⟩ := hcall { s with bufferLen := n } root.resources hend
    have hstep : contentSerializeProgress root s n =
        (some [], { serializeResources root.resources { s with bufferLen := n } with buffer := [] }) := by
      have hbuf : (serializeResources root.resources { s with bufferLen := n }).buffer = [] :=
        hbuf.trans hbuffer
      unfold contentSerializeProgress
      rw [serializeTree_eq, if_neg (by rw [hstatus]; exact SerializeState.noConfusion), hbuf]
    rw [save, hstep]
    obtain ⟨hbytes, hst, hw⟩ := ih (s := { serializeResources root.resources { s with bufferLen := n } with
      buffer := [] }) hstatus rfl
    exact ⟨hbytes, hst, hw.trans hwritten⟩

theorem save_error {root : MHTMLWebArchive} {s : Serializer} (herror : s.status = .ERROR) (ns : List Nat) :
    (save root s ns).2.status = .ERROR := by
  have hcall : ∀ (rs : List ArchiveResource) (t : Serializer), t.status = .ERROR →
      (serializeResources rs t).status = .ERROR := by
    intro rs
    induction rs with
    | nil => exact fun t ht => ht
    | cons r rs ih =>
      intro t ht
      have hr : (t.serializeResourceIfNew r).status = .ERROR := by
        unfold serializeResourceIfNew serializeResource
        rw [ht]
        split
        · exact ht
        · split
          · exact ht
          · rfl
      rw [serializeResources]
      split
      · exact hr
      · exact ih _ hr
  induction ns generalizing s with
  | nil => exact herror
  | cons n ns ih =>
    have hstatus := hcall root.resources { s with bufferLen := n } herror
    have hstep : contentSerializeProgress root s n =
        (none, serializeResources root.resources { s with bufferLen := n }) := by
      unfold contentSerializeProgress
      rw [serializeTree_eq, if_pos hstatus]
    rw [save, hstep]
    exact ih hstatus

theorem progress_outcome {root : MHTMLWebArchive} {s : Serializer} {xs : List ArchiveResource} {R : Bytes}
    {E : List Nat} (h : Left root.resources s xs R E) {n : Nat} (hn : 0 < n) :
    ∃ t : Serializer, Outcome root.resources { s with bufferLen := n } xs R E t ∧
      contentSerializeProgress root s n =
        if t.status = .ERROR then (none, t) else (some t.buffer, { t with buffer := [] }) := by
  have hout := (h.rebuffer s.buffer n).outcome (show n ≠ 0 by omega)
  refine ⟨serializeResources root.resources { s with bufferLen := n }, hout, ?_⟩
  unfold contentSerializeProgress
  rw [serializeTree_eq]

/-- What a run does with the text `R` that is left.  If no buffer ends where a body does, it writes `R` and
is finished as soon as the buffers suffice; otherwise it writes more, and one resource twice. -/
structure Saves (root : MHTMLWebArchive) (s : Serializer) (xs : List ArchiveResource) (R : Bytes) (E : List Nat)
    (ns : List Nat) : Prop where
  finishes : Misses E ns → R.length ≤ ns.sum → (∀ x ∈ xs, x.url ≠ []) → (save root s ns).2.status = .END ∧
    (save root s ns).1 = R ∧ (save root s ns).2.written = s.written ++ xs
  waits : Misses E ns → ns.sum < R.length → (save root s ns).2.status ≠ .END
  covers : (save root s ns).2.status = .END → R.length ≤ (save root s ns).1.length ∧
    (∀ x ∈ xs, x.url ≠ []) ∧ ∃ v, (save root s ns).2.written = s.written ++ v ∧ xs.Sublist v
  repeats : ¬ Misses E ns → (save root s ns).2.status = .END → R.length < (save root s ns).1.length ∧
    ∃ v, (save root s ns).2.written = s.written ++ v ∧ ¬ v.Nodup

section
variable {root : MHTMLWebArchive} {s t : Serializer} {xs ys zs : List ArchiveResource} {R R' : Bytes}
  {E E' : List Nat} {n : Nat} {ns : List Nat}

theorem Saves.hit {r : ArchiveResource}
    (hsave : save root s (n :: ns) =
      (t.buffer ++ (save root { t with buffer := [] } ns).1, (save root { t with buffer := [] } ns).2))
    (hmem : n ∈ E) (hsplit : xs = ys ++ r :: zs) (hlen : t.buffer.length = n)
    (hwritten : t.written = s.written ++ (ys ++ [r])) (hagain : R.length < n + R'.length)
    (hurls : ∀ y ∈ ys, y.url ≠ []) (h : Saves root { t with buffer := [] } (r :: zs) R' E' ns) :
    Saves root s xs R E (n :: ns) := by
  have hnot : ¬ Misses E (n :: ns) := by
    intro hm
    apply hm [n] (List.cons_prefix_cons.mpr ⟨rfl, List.nil_prefix⟩) (List.cons_ne_nil _ _)
    rw [List.sum_singleton]
    exact hmem
  have hfin : (save root s (n :: ns)).2.status = .END → R.length < (save root s (n :: ns)).1.length ∧
      (∀ x ∈ xs, x.url ≠ []) ∧
      ∃ v, (save root s (n :: ns)).2.written = s.written ++ (ys ++ r :: v) ∧ (r :: zs).Sublist v := by
    rw [hsave]
    intro hst
    obtain ⟨hlong, hzs, v, hv, hsub⟩ := h.covers hst
    refine ⟨?_, ?_, v, ?_, hsub⟩
    · rw [List.length_append, hlen]
      omega
    · rw [hsplit]
      exact List.forall_mem_append.mpr ⟨hurls, hzs⟩
    · rw [hv]
      show t.written ++ v = _
      rw [hwritten, List.append_assoc, List.append_assoc, List.singleton_append]
  refine ⟨fun hm => absurd hm hnot, fun hm => absurd hm hnot, fun hst => ?_, fun _ hst => ?_⟩
  · obtain ⟨hlong, hxs, v, hv, hsub⟩ := hfin hst
    refine ⟨hlong.le, hxs, ys ++ r :: v, hv, ?_⟩
    rw [hsplit]
    exact (List.Sublist.refl ys).append (hsub.cons r)
  · obtain ⟨hlong, -, v, hv, hsub⟩ := hfin hst
    refine ⟨hlong, ys ++ r :: v, hv, ?_⟩
    intro hnodup
    have htail := (List.nodup_append.mp hnodup).2.1
    exact (List.nodup_cons.mp htail).1 (hsub.subset List.mem_cons_self)

theorem Saves.finished
    (hsave : save root s (n :: ns) =
      (t.buffer ++ (save root { t with buffer := [] } ns).1, (save root { t with buffer := [] } ns).2))
    (hpos : ∀ m ∈ ns, 0 < m) (hE : ∀ e ∈ E, e ≤ R.length) (hmiss : n ∉ E) (henough : R.length ≤ n)
    (hstatus : t.status = .END) (hbuffer : t.buffer = R) (hwritten : t.written = s.written ++ xs)
    (hurls : ∀ x ∈ xs, x.url ≠ []) : Saves root s xs R E (n :: ns) := by
  obtain ⟨hbytes, hst, hw⟩ := @save_end root { t with buffer := [] } hstatus rfl ns
  have hmisses : Misses E (n :: ns) := by
    intro pre hpre hne hmem
    obtain ⟨m, more, rfl⟩ := List.exists_cons_of_ne_nil hne
    obtain ⟨hm, hmore⟩ := List.cons_prefix_cons.mp hpre
    rw [List.sum_cons, hm] at hmem
    have hle := hE _ hmem
    by_cases hnil : more = []
    · rw [hnil, List.sum_nil, Nat.add_zero] at hmem
      exact hmiss hmem
    · have hsum := sum_pos (fun k hk => hpos k (hmore.subset hk)) hnil
      omega
  have hout : (save root s (n :: ns)).1 = R := by
    rw [hsave]
    show t.buffer ++ (save root { t with buffer := [] } ns).1 = R
    rw [hbytes, List.append_nil, hbuffer]
  have hall : (save root s (n :: ns)).2.written = s.written ++ xs := by
    rw [hsave]
    exact hw.trans hwritten
  have hend : (save root s (n :: ns)).2.status = .END := by
    rw [hsave]
    exact hst
  refine ⟨fun _ _ _ => ⟨hend, hout, hall⟩, fun _ hsum => ?_, fun _ => ?_, fun hnot => absurd hmisses hnot⟩
  · rw [List.sum_cons] at hsum
    omega
  · rw [hout]
    exact ⟨le_rfl, hurls, xs, hall, List.Sublist.refl xs⟩

theorem Saves.more
    (hsave : save root s (n :: ns) =
      (t.buffer ++ (save root { t with buffer := [] } ns).1, (save root { t with buffer := [] } ns).2))
    (hmisses : Misses E (n :: ns) ↔ Misses E' ns) (hshort : n < R.length) (hsplit : xs = ys ++ zs)
    (hbuffer : t.buffer = R.take n) (hwritten : t.written = s.written ++ ys) (hurls : ∀ y ∈ ys, y.url ≠ [])
    (h : Saves root { t with buffer := [] } zs (R.drop n) E' ns) : Saves root s xs R E (n :: ns) := by
  have hrest : (R.drop n).length = R.length - n := List.length_drop
  have hlen : t.buffer.length = n := by
    rw [hbuffer, List.length_take]
    omega
  have hw : ∀ v, (save root { t with buffer := [] } ns).2.written = t.written ++ v →
      (save root { t with buffer := [] } ns).2.written = s.written ++ (ys ++ v) := by
    intro v hv
    rw [hv, hwritten, List.append_assoc]
  constructor
  · rw [hsave, List.sum_cons]
    intro hm hsum hxs
    have hzs : ∀ z ∈ zs, z.url ≠ [] := by
      rw [hsplit] at hxs
      exact fun z hz => hxs z (List.mem_append_right _ hz)
    obtain ⟨hst, hbytes, hwr⟩ := h.finishes (hmisses.mp hm) (by omega) hzs
    refine ⟨hst, ?_, ?_⟩
    · rw [hbytes, hbuffer]
      exact List.take_append_drop n R
    · rw [hsplit]
      exact hw zs hwr
  · rw [hsave, List.sum_cons]
    intro hm hsum
    exact h.waits (hmisses.mp hm) (by omega)
  · rw [hsave]
    intro hst
    obtain ⟨hlong, hzs, v, hv, hsub⟩ := h.covers hst
    refine ⟨?_, ?_, ys ++ v, hw v hv, ?_⟩
    · rw [List.length_append, hlen]
      omega
    · rw [hsplit]
      exact List.forall_mem_append.mpr ⟨hurls, hzs⟩
    · rw [hsplit]
      exact (List.Sublist.refl ys).append hsub
  · rw [hsave]
    intro hnot hst
    obtain ⟨hlong, v, hv, hnodup⟩ := h.repeats (fun hm => hnot (hmisses.mpr hm)) hst
    refine ⟨?_, ys ++ v, hw v hv, ?_⟩
    · rw [List.length_append, hlen]
      omega
    · exact fun hd => hnodup (List.nodup_append.mp hd).2.1

end

/-- **A run**, by its calls and what each of them has done -/
theorem save_left {root : MHTMLWebArchive} {s : Serializer} {xs : List ArchiveResource} {R : Bytes}
    {E : List Nat} (h : Left root.resources s xs R E) (hbuffer : s.buffer = []) (ns : List Nat)
    (hpos : ∀ n ∈ ns, 0 < n) (hR : 0 < R.length) (hE : ∀ e ∈ E, e ≤ R.length) : Saves root s xs R E ns := by
  induction ns generalizing s xs R E with
  | nil =>
    have hno : (save root s []).2.status ≠ .END := h.status.1
    refine ⟨?_, fun _ _ => hno, fun hend => absurd hend hno, fun _ hend => absurd hend hno⟩
    intro _ hsum
    rw [List.sum_nil] at hsum
    omega
  | cons n ns ih =>
    have hn := hpos n List.mem_cons_self
    have hpos' : ∀ m ∈ ns, 0 < m := fun m hm => hpos m (List.mem_cons_of_mem _ hm)
    obtain ⟨t, hout, hstep⟩ := progress_outcome h hn
    have hsave : t.status ≠ .ERROR → save root s (n :: ns) =
        (t.buffer ++ (save root { t with buffer := [] } ns).1, (save root { t with buffer := [] } ns).2) := by
      intro hok
      rw [save, hstep, if_neg hok]
      rfl
    have hbuf : ∀ b : Bytes, s.buffer ++ b = b := by
      intro b
      rw [hbuffer]
      rfl
    cases hout with
    | failed x mem url status =>
      have hno : (save root s (n :: ns)).2.status ≠ .END := by
        rw [save, hstep, if_pos status]
        have herror := @save_error root _ status ns
        intro hend
        exact SerializeState.noConfusion (herror.symm.trans hend)
      exact ⟨fun _ _ hurls => absurd url (hurls x mem), fun _ _ => hno, fun hend => absurd hend hno,
        fun _ hend => absurd hend hno⟩
    | hit ys zs r R' E' mem split buffer written left again fits urls =>
      have again : R.length < n + R'.length := again
      have fits : n ≤ R.length := fits
      have hlen : t.buffer.length = n := by
        rw [buffer]
        show (s.buffer ++ R.take n).length = n
        rw [hbuf, List.length_take]
        exact Nat.min_eq_left fits
      have hE' : ∀ e ∈ E', e ≤ R'.length := by
        intro e he
        cases left with
        | item _ _ ready news count urls =>
          have hb := ends_bound t.multipart (t.lead r).length zs
          rw [List.length_append]
          rcases List.mem_cons.mp he with rfl | he
          · omega
          · exact (hb e he).2
      exact .hit (hsave left.status.2) mem split hlen written again urls
        (ih (left.rebuffer [] t.bufferLen) rfl hpos' (by omega) hE')
    | finished miss enough status buffer written urls =>
      exact .finished (hsave (by rw [status]; exact SerializeState.noConfusion)) hpos' hE miss enough status
        (buffer.trans (hbuf R)) written urls
    | more ys zs E' miss short split buffer written left shift urls =>
      have short : n < R.length := short
      have left : Left root.resources t zs (R.drop n) E' := left
      have hlen : (R.drop n).length = R.length - n := List.length_drop
      have hE' : ∀ e ∈ E', e ≤ (R.drop n).length := by
        intro e he
        rcases Nat.eq_zero_or_pos e with hz | hp
        · omega
        · have hle : n + e ≤ R.length := hE _ ((shift e hp).mp he)
          omega
      exact .more (hsave left.status.2) (Misses.cons hpos' miss shift) short split (buffer.trans (hbuf _)) written urls
        (ih (left.rebuffer [] t.bufferLen) rfl hpos' (by omega) hE')

end Serializer

/-! ## the start -/

namespace MHTMLWebArchive

/-- what `caculateItems` has counted: as many resources as it has URLs, all of them of resources of `L` that
have a body -/
structure Counted (L : List ArchiveResource) (p : Nat × Walk) : Prop where
  count : p.1 = p.2.uniqueSubresources.length
  nodup : p.2.uniqueSubresources.Nodup
  known : ∀ u ∈ p.2.uniqueSubresources, ∃ r ∈ L, r.data ≠ [] ∧ r.url = u

section
variable {L : List ArchiveResource}

theorem Counted.skip {items : Nat} {w : Walk} (h : Counted L (items, w)) (n : Nat) :
    Counted L (items, w.skip n) := ⟨h.count, h.nodup, h.known⟩

theorem Counted.add {items : Nat} {w : Walk} (h : Counted L (items, w)) {r : ArchiveResource}
    (hr : r ∈ L) (hnew : ¬ (r.data.isEmpty || w.knows r) = true) :
    Counted L (items + 1, w.add r true) := by
  have hboth : r.data.isEmpty = false ∧ w.knows r = false := by
    rw [← Bool.or_eq_false_iff]
    simpa using hnew
  refine ⟨?_, ?_, ?_⟩
  · show items + 1 = (r.url :: w.uniqueSubresources).length
    rw [List.length_cons]
    exact congrArg (· + 1) h.count
  · show (r.url :: w.uniqueSubresources).Nodup
    rw [List.nodup_cons]
    refine ⟨?_, h.nodup⟩
    have hknows := hboth.2
    unfold Walk.knows at hknows
    simpa using hknows
  · intro u hu
    rcases List.mem_cons.mp hu with rfl | hu
    · exact ⟨r, hr, by simpa using hboth.1, rfl⟩
    · exact h.known u hu

theorem Counted.countResources (rs : List ArchiveResource) {items : Nat} {w : Walk}
    (h : Counted L (items, w)) (hrs : rs ⊆ L) : Counted L (countResources rs items w) := by
  induction rs generalizing items w with
  | nil => exact h
  | cons r rs ih =>
    rw [MHTMLWebArchive.countResources, countResource]
    have htail : rs ⊆ L := fun x hx => hrs (List.mem_cons_of_mem _ hx)
    by_cases hnew : (r.data.isEmpty || w.knows r) = true
    · rw [if_pos hnew]
      exact ih (h.skip 1) htail
    · rw [if_neg hnew]
      exact ih (h.add (hrs List.mem_cons_self) hnew) htail

mutual

theorem Counted.caculateItems (a : MHTMLWebArchive) {items : Nat} {w : Walk} (h : Counted L (items, w))
    (ha : a.resources ⊆ L) : Counted L (a.caculateItems items w) := by
  cases a with
  | create main subresources frames =>
    rw [resources] at ha
    rw [MHTMLWebArchive.caculateItems]
    split
    · exact h.skip _
    · next hnew =>
      have hmain := h.add (ha List.mem_cons_self) hnew
      have hsub := hmain.countResources subresources
        (fun x hx => ha (List.mem_cons_of_mem _ (List.mem_append_left _ hx)))
      exact hsub.caculateFrames frames (fun x hx => ha (List.mem_cons_of_mem _ (List.mem_append_right _ hx)))

theorem Counted.caculateFrames (frames : List MHTMLWebArchive) {items : Nat} {w : Walk}
    (h : Counted L (items, w)) (hf : framesResources frames ⊆ L) :
    Counted L (caculateFrames frames items w) := by
  cases frames with
  | nil => exact h
  | cons a rest =>
    rw [framesResources] at hf
    rw [MHTMLWebArchive.caculateFrames]
    have ha := h.caculateItems a (fun x hx => hf (List.mem_append_left _ hx))
    exact ha.caculateFrames rest (fun x hx => hf (List.mem_append_right _ hx))

end

end

theorem caculateItems_le (root : MHTMLWebArchive) :
    (root.caculateItems 0 {}).1 ≤ (Serializer.news [] root.resources).length := by
  have hstart : Counted root.resources (0, {}) :=
    ⟨rfl, List.nodup_nil, fun u hu => absurd hu List.not_mem_nil⟩
  have h := hstart.caculateItems root (List.Subset.refl _)
  rw [h.count, ← List.length_map ArchiveResource.url]
  refine (h.nodup.subperm ?_).length_le
  intro u hu
  obtain ⟨r, hr, hdata, rfl⟩ := h.known u hu
  exact (Serializer.news_complete [] hr hdata).resolve_left List.not_mem_nil

theorem mainResource_ne_nil {root : MHTMLWebArchive} (h : (root.caculateItems 0 {}).1 ≠ 0) :
    root.mainResource.data ≠ [] := by
  cases root with
  | create main subresources frames =>
    intro hnil
    rw [caculateItems] at h
    have hskip : (main.data.isEmpty || Walk.knows {} main) = true := by
      rw [show main.data = [] from hnil]
      rfl
    rw [if_pos hskip] at h
    exact h rfl

end MHTMLWebArchive

/-- the resources that are saved: the first of those that are new -/
def savedResources (root : MHTMLWebArchive) (items : Nat) : List ArchiveResource :=
  (Serializer.news [] root.resources).take items

def pageText (root : MHTMLWebArchive) (items : Nat) : Bytes :=
  Mhtml.makeMessageHeader root.mainResource.mimeType (decide (1 < items)) ++
    Serializer.parts (decide (1 < items)) (savedResources root items)

def bodyEnds (root : MHTMLWebArchive) (items : Nat) : List Nat :=
  Serializer.ends (decide (1 < items))
    (Mhtml.makeMessageHeader root.mainResource.mimeType (decide (1 < items))).length
    (savedResources root items)

section
variable {isSupportedImageMIMEType : WString → Bool} {root : MHTMLWebArchive} {s : Serializer}

theorem start_spec (h : contentSerializeStart isSupportedImageMIMEType root = some s) :
    s = { items := s.items } ∧ s.items = (root.caculateItems 0 {}).1 ∧ s.items ≠ 0 := by
  unfold contentSerializeStart at h
  dsimp only at h
  split at h
  · cases h
  · next hzero =>
    split at h
    · cases h
    · obtain rfl := Option.some.inj h
      exact ⟨rfl, rfl, hzero⟩

theorem savedResources_length (h : contentSerializeStart isSupportedImageMIMEType root = some s) :
    (savedResources root s.items).length = s.items := by
  obtain ⟨-, hitems, -⟩ := start_spec h
  unfold savedResources
  rw [List.length_take]
  apply Nat.min_eq_left
  rw [hitems]
  exact root.caculateItems_le

theorem savedResources_head (h : contentSerializeStart isSupportedImageMIMEType root = some s) :
    ∃ xs, savedResources root s.items = root.mainResource :: xs := by
  obtain ⟨-, hitems, hzero⟩ := start_spec h
  have hmain := @MHTMLWebArchive.mainResource_ne_nil root (by rw [← hitems]; exact hzero)
  obtain ⟨k, hk⟩ := Nat.exists_eq_succ_of_ne_zero hzero
  unfold savedResources
  rw [hk]
  cases root with
  | create main subresources frames =>
    have hdata : main.data ≠ [] := hmain
    rw [MHTMLWebArchive.resources, Serializer.news, if_neg (by simpa using hdata)]
    exact ⟨_, rfl⟩

theorem start_left (h : contentSerializeStart isSupportedImageMIMEType root = some s) :
    Serializer.Left root.resources s (savedResources root s.items) (pageText root s.items)
      (bodyEnds root s.items) := by
  obtain ⟨hs, -, hzero⟩ := start_spec h
  obtain ⟨xs, hxs⟩ := savedResources_head h
  have hlen := savedResources_length h
  rw [hxs, List.length_cons] at hlen
  have hready : s.Ready := by
    rw [hs]
    exact ⟨SerializeState.noConfusion, SerializeState.noConfusion, Nat.one_le_iff_ne_zero.mpr hzero,
      Nat.le_refl 0, fun hb => SerializeState.noConfusion hb⟩
  have hlead : s.lead root.mainResource =
      Mhtml.makeMessageHeader root.mainResource.mimeType (decide (1 < s.items)) ++
        Serializer.part (decide (1 < s.items)) root.mainResource := by
    rw [hs]
    rfl
  have hmulti : s.multipart = decide (1 < s.items) := rfl
  have hunique : s.uniqueSubresources = [] := by rw [hs]
  have hcur : s.curItem = 1 := by rw [hs]
  have hnews : (Serializer.news s.uniqueSubresources root.resources).take (xs.length + 1) =
      root.mainResource :: xs := by
    rw [hlen, hunique]
    exact hxs
  have hleft := Serializer.Left.item root.mainResource xs hready hnews
    (by rw [hcur]; omega) (by rw [hs]; exact fun hb => absurd hb nofun)
  unfold pageText bodyEnds
  rw [hlead, hmulti, List.append_assoc, List.length_append] at hleft
  rw [hxs, Serializer.parts, Serializer.ends]
  exact hleft

theorem pageText_pos (root : MHTMLWebArchive) (items : Nat) : 0 < (pageText root items).length := by
  unfold pageText
  rw [List.length_append, Mhtml.makeMessageHeader_length]
  unfold Mhtml.messageHeaderSize
  split <;> omega

theorem bodyEnds_le (root : MHTMLWebArchive) (items : Nat) :
    ∀ e ∈ bodyEnds root items, e ≤ (pageText root items).length := by
  intro e he
  have hb := Serializer.ends_bound _ _ _ e he
  unfold pageText
  rw [List.length_append]
  exact hb.2

theorem save_text (h : contentSerializeStart isSupportedImageMIMEType root = some s)
    (hurl : ∀ r ∈ root.resources, r.url ≠ []) {n : Nat} (hn : (pageText root s.items).length < n) :
    (save root s [n]).1 = pageText root s.items := by
  have hsaved : ∀ r ∈ savedResources root s.items, r.url ≠ [] := by
    intro r hr
    exact hurl r (Serializer.news_subset [] root.resources (List.mem_of_mem_take hr))
  have hbuffer : s.buffer = [] := by rw [(start_spec h).1]
  have hE := bodyEnds_le root s.items
  have hone : Serializer.Misses (bodyEnds root s.items) [n] := by
    intro pre hpre hne hmem
    obtain ⟨m, more, rfl⟩ := List.exists_cons_of_ne_nil hne
    obtain ⟨hm, hmore⟩ := List.cons_prefix_cons.mp hpre
    rw [hm, List.prefix_nil.mp hmore, List.sum_singleton] at hmem
    have hle := hE n hmem
    omega
  have hsingle := (Serializer.save_left (start_left h) hbuffer [n] (by simpa using Nat.zero_lt_of_lt hn)
    (pageText_pos root s.items) hE).1 hone (by rw [List.sum_singleton]; exact hn.le) hsaved
  exact hsingle.2.1

/-- **A page saved in pieces.**  A run of calls that finishes the page has written the bytes of a single
call with a buffer large enough exactly if none of its buffers ends at the end of a body; and such a run
does finish the page once the buffers suffice. -/
theorem save_pieces_iff (h : contentSerializeStart isSupportedImageMIMEType root = some s)
    (hurl : ∀ r ∈ root.resources, r.url ≠ []) {ns : List Nat} (hpos : ∀ n ∈ ns, 0 < n) {n : Nat}
    (hn : (pageText root s.items).length < n) :
    ((save root s ns).2.status = .END →
      ((save root s ns).1 = (save root s [n]).1 ↔ Serializer.Misses (bodyEnds root s.items) ns)) ∧
    (Serializer.Misses (bodyEnds root s.items) ns → (pageText root s.items).length ≤ ns.sum →
      (save root s ns).2.status = .END) := by
  have hsaved : ∀ r ∈ savedResources root s.items, r.url ≠ [] := by
    intro r hr
    exact hurl r (Serializer.news_subset [] root.resources (List.mem_of_mem_take hr))
  have hleft := start_left h
  have hbuffer : s.buffer = [] := by rw [(start_spec h).1]
  have hR := pageText_pos root s.items
  have hE := bodyEnds_le root s.items
  obtain ⟨hall, hnone, -, htwice⟩ := Serializer.save_left hleft hbuffer ns hpos hR hE
  rw [save_text h hurl hn]
  refine ⟨?_, fun hm hsum => (hall hm hsum hsaved).1⟩
  intro hend
  constructor
  · intro heq
    by_contra hm
    have hlong := (htwice hm hend).1
    rw [heq] at hlong
    exact lt_irrefl _ hlong
  · intro hm
    rcases Nat.lt_or_ge ns.sum (pageText root s.items).length with hlt | hge
    · exact absurd hend (hnone hm hlt)
    · exact (hall hm hge hsaved).2.1

end

/-! ## a page of one resource -/

namespace Sample

def onePage : MHTMLWebArchive := .create ⟨[0x75], [0x74], [], [1, 2, 3]⟩ [] []

def onePageStart : Serializer := { items := 1 }

def noImage (_ : WString) : Bool := false

end Sample

open Sample

theorem save_pieces_iff_one : contentSerializeStart noImage onePage = some onePageStart ∧
    (save onePage onePageStart [30, 40]).2.status = .END ∧
    (save onePage onePageStart [30, 40]).1 = (save onePage onePageStart [100]).1 := by
  have hstart : contentSerializeStart noImage onePage = some onePageStart := rfl
  have hboth := save_pieces_iff hstart (by decide) (show ∀ n ∈ [30, 40], 0 < n by decide) (n := 100)
    (by decide +kernel)
  have hmiss : Serializer.Misses (bodyEnds onePage onePageStart.items) [30, 40] := by
    have hall : ∀ pre ∈ [30, 40].inits, pre ≠ [] → pre.sum ∉ bodyEnds onePage onePageStart.items := by
      decide +kernel
    intro pre hpre
    exact hall pre ((List.mem_inits _ _).mpr hpre)
  have hend := hboth.2 hmiss (by decide +kernel)
  exact ⟨hstart, hend, (hboth.1 hend).mpr hmiss⟩

/-- the first buffer ends at the end of the body, and the part is written again -/
theorem save_pieces_twice : contentSerializeStart noImage onePage = some onePageStart ∧
    (∀ r ∈ onePage.resources, r.url ≠ []) ∧ (save onePage onePageStart [62, 100]).2.status = .END ∧
    (save onePage onePageStart [62, 100]).1 ≠ (save onePage onePageStart [100]).1 :=
  ⟨rfl, by decide, by decide +kernel, by decide +kernel⟩

end Wkc
