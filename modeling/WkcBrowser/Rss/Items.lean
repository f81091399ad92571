import WkcBrowser.Rss.Dates
import Mathlib.Data.List.Perm.Basic

/-!
# The items of a feed and their dates

An item has one date, which a preferred child and a second one may give.

* `nodeFeedEntry`, `nodeRssChannelItem`  an item from the children of an Atom `entry` or an RSS `item`;
* `Sources`                              who gives the date, and how it is read;
* `Sources.after_eq`                     a preferred child throws away what was there before it;
* `item_date`                            the loop over the children, as far as the date goes;
* `OrderFree`                            the date does not depend on the order of the children;
* `orderFree_iff`                        it does not, unless the preferred child is unreadable and the second one is not.
-/

namespace Wkc
namespace Rss

/-! ## the tree -/

/-- the types of nodes that the parser asks for -/
inductive NodeType where
  | XML_ELEMENT_NODE | XML_ATTRIBUTE_NODE | XML_TEXT_NODE | XML_CDATA_SECTION_NODE | other
  deriving DecidableEq

/-- a node below a child of an item or below an attribute: only texts are read -/
structure Text where
  type : NodeType
  content : Option Bytes
  deriving DecidableEq

structure Attr where
  type : NodeType
  name : Option Bytes
  children : List Text
  deriving DecidableEq

/-- a child of an item; `ns_prefix` is `ns->prefix`, if there is one -/
structure Node where
  type : NodeType
  name : Option Bytes
  ns_prefix : Option Bytes
  children : List Text
  properties : List Attr
  deriving DecidableEq

def isTargetElement (node : Node) (ns : Option Bytes) (name : Bytes) : Bool :=
  node.type = .XML_ELEMENT_NODE ∧ node.name = some name ∧ (ns = none ∨ node.ns_prefix = ns)

def findText (nodes : List Text) : Option Bytes :=
  nodes.findSome? fun t => if t.type = .XML_TEXT_NODE then t.content else none

def findAttribute (attrs : List Attr) (name : Bytes) : Option Bytes :=
  (attrs.find? fun t => t.type = .XML_ATTRIBUTE_NODE ∧ t.name = some name).bind fun t => findText t.children

def getContentInUTF8 (nodes : List Text) : Bytes :=
  nodes.flatMap fun t =>
    if t.type = .XML_TEXT_NODE ∨ t.type = .XML_CDATA_SECTION_NODE then t.content.getD [] else []

def Name_date : Bytes := octets ['d', 'a', 't', 'e']
def Name_dc : Bytes := octets ['d', 'c']
def Name_description : Bytes := octets ['d', 'e', 's', 'c', 'r', 'i', 'p', 't', 'i', 'o', 'n']
def Name_href : Bytes := octets ['h', 'r', 'e', 'f']
def Name_link : Bytes := octets ['l', 'i', 'n', 'k']
def Name_pubDate : Bytes := octets ['p', 'u', 'b', 'D', 'a', 't', 'e']
def Name_published : Bytes := octets ['p', 'u', 'b', 'l', 'i', 's', 'h', 'e', 'd']
def Name_issued : Bytes := octets ['i', 's', 's', 'u', 'e', 'd']
def Name_summary : Bytes := octets ['s', 'u', 'm', 'm', 'a', 'r', 'y']
def Name_title : Bytes := octets ['t', 'i', 't', 'l', 'e']
def Name_updated : Bytes := octets ['u', 'p', 'd', 'a', 't', 'e', 'd']
def Name_modified : Bytes := octets ['m', 'o', 'd', 'i', 'f', 'i', 'e', 'd']
def Name_content : Bytes := octets ['c', 'o', 'n', 't', 'e', 'n', 't']
def Name_encoded : Bytes := octets ['e', 'n', 'c', 'o', 'd', 'e', 'd']

/-! ## items -/

structure Item where
  title : Option (List UInt16)
  description : Option (List UInt16)
  content : Option (List UInt16)
  link : Option Bytes
  date : Option Date

def Item.empty : Item := { title := none, description := none, content := none, link := none, date := none }

/-- what the parser of a date makes of the texts; `fresh` is what `new` finds in memory -/
def readDate (fresh : Date) (parse : Bytes → Option Date → Parsed) (nodes : List Text) : Option Date :=
  let date := parse (getContentInUTF8 nodes) (some fresh)
  if date.result then date.date else none

section
variable (makeUTF16 : Bytes → Option (List UInt16)) (fresh : Date)

/-- the peer's decoder, which may be missing, on the texts -/
def getContentInUTF16 (nodes : List Text) : Option (List UInt16) := makeUTF16 (getContentInUTF8 nodes)

/-- one turn of the loop of `nodeFeedEntry` -/
def feedEntryChild (item : Item) (node : Node) : Item :=
  if isTargetElement node none Name_title then
    { item with title := item.title <|> getContentInUTF16 makeUTF16 node.children }
  else if isTargetElement node none Name_summary then
    { item with description := item.description <|> getContentInUTF16 makeUTF16 node.children }
  else if isTargetElement node none Name_content then
    { item with content := item.content <|> getContentInUTF16 makeUTF16 node.children }
  else if isTargetElement node none Name_link then
    { item with link := item.link <|> findAttribute node.properties Name_href }
  else if isTargetElement node none Name_published || isTargetElement node none Name_issued then
    -- the date that is there is deleted before the new one is parsed
    { item with date := readDate fresh parseRFC3339DateTime node.children }
  else if isTargetElement node none Name_updated || isTargetElement node none Name_modified then
    { item with date := item.date <|> readDate fresh parseRFC3339DateTime node.children }
  else item

/-- The new item is appended to those of the feed. -/
def nodeFeedEntry (items : List Item) (in_entry_child : List Node) : List Item :=
  items ++ [in_entry_child.foldl (feedEntryChild makeUTF16 fresh) Item.empty]

/-- one turn of the loop of `nodeRssChannelItem` -/
def rssChannelItemChild (item : Item) (node : Node) : Item :=
  if isTargetElement node none Name_title then
    { item with title := item.title <|> getContentInUTF16 makeUTF16 node.children }
  else if isTargetElement node none Name_description then
    { item with description := item.description <|> getContentInUTF16 makeUTF16 node.children }
  else if isTargetElement node (some Name_content) Name_encoded then
    { item with content := item.content <|> getContentInUTF16 makeUTF16 node.children }
  else if isTargetElement node none Name_link then
    { item with link := item.link <|> some (getContentInUTF8 node.children) }
  else if isTargetElement node none Name_pubDate then
    -- as above
    { item with date := readDate fresh parseRFC5322DateTime node.children }
  else if isTargetElement node (some Name_dc) Name_date then
    { item with date := item.date <|> readDate fresh parseW3CDateTime node.children }
  else item

def nodeRssChannelItem (items : List Item) (in_item_child : List Node) : List Item :=
  items ++ [in_item_child.foldl (rssChannelItemChild makeUTF16 fresh) Item.empty]

end

/-! ## a date from two sources -/

/-- who gives a date: the first ones replace what is there, the second ones do not -/
structure Sources (ν δ : Type) where
  primary : ν → Bool
  secondary : ν → Bool
  readPrimary : ν → Option δ
  readSecondary : ν → Option δ
  disjoint : ∀ n, primary n = true → secondary n = false

namespace Sources
variable {ν δ : Type} (sources : Sources ν δ)

def step (date : Option δ) (n : ν) : Option δ :=
  if sources.primary n then sources.readPrimary n
  else if sources.secondary n then date <|> sources.readSecondary n
  else date

def after (nodes : List ν) (date : Option δ) : Option δ := nodes.foldl sources.step date

/-- the date that is meant: that of the first source, and if it has none that of the second one -/
def preferred (nodes : List ν) : Option δ :=
  (nodes.find? sources.primary).bind sources.readPrimary <|> (nodes.find? sources.secondary).bind sources.readSecondary

/-- a first source without a date, and a second one with one -/
def Spoilt (nodes : List ν) : Prop :=
  (∃ n ∈ nodes, sources.primary n = true ∧ sources.readPrimary n = none) ∧
    ∃ n ∈ nodes, sources.secondary n = true ∧ (sources.readSecondary n).isSome

instance Spoilt.decidable (nodes : List ν) : Decidable (sources.Spoilt nodes) :=
  inferInstanceAs (Decidable (_ ∧ _))

theorem after_append (l r : List ν) (date : Option δ) :
    sources.after (l ++ r) date = sources.after r (sources.after l date) := List.foldl_append

/-- Without a first source the first readable second one counts, if there is no date yet. -/
theorem after_secondary {nodes : List ν} (h : ∀ n ∈ nodes, sources.primary n = false) (date : Option δ) :
    sources.after nodes date = (date <|> (nodes.filter sources.secondary).findSome? sources.readSecondary) := by
  induction nodes generalizing date with
  | nil => cases date <;> rfl
  | cons n nodes ih =>
    have hn := h n List.mem_cons_self
    have hrest : ∀ x ∈ nodes, sources.primary x = false := fun x hx => h x (List.mem_cons_of_mem _ hx)
    show sources.after nodes (sources.step date n) = _
    rw [ih hrest, step, hn]
    cases hs : sources.secondary n with
    | false => simp [hs]
    | true =>
      rw [List.filter_cons_of_pos hs, List.findSome?_cons]
      cases date with
      | some d => rfl
      | none => cases sources.readSecondary n <;> rfl

theorem after_eq {l r : List ν} {n : ν} (hn : sources.primary n = true) (hr : ∀ x ∈ r, sources.primary x = false)
    (date : Option δ) : sources.after (l ++ n :: r) date =
      (sources.readPrimary n <|> (r.filter sources.secondary).findSome? sources.readSecondary) := by
  rw [after_append]
  show sources.after r (sources.step _ n) = _
  rw [step, if_pos hn, sources.after_secondary hr]

theorem filter_one {q : ν → Bool} {nodes : List ν} (h : nodes.countP q ≤ 1) :
    nodes.filter q = (nodes.find? q).toList := by
  induction nodes with
  | nil => rfl
  | cons n nodes ih =>
    cases hn : q n with
    | false =>
      rw [List.countP_cons_of_neg (by simp [hn])] at h
      rw [List.filter_cons_of_neg (by simp [hn]), List.find?_cons_of_neg (by simp [hn]), ih h]
    | true =>
      rw [List.countP_cons_of_pos hn] at h
      have hzero : nodes.countP q = 0 := by omega
      rw [List.filter_cons_of_pos hn, List.find?_cons_of_pos hn]
      have hnil : nodes.filter q = [] := by
        rw [← List.length_eq_zero_iff, ← List.countP_eq_length_filter, hzero]
      rw [hnil]
      rfl

theorem find_mem {q : ν → Bool} {nodes : List ν} (h : nodes.countP q ≤ 1) {n : ν} (hmem : n ∈ nodes)
    (hn : q n = true) : nodes.find? q = some n := by
  have hfilter : n ∈ nodes.filter q := List.mem_filter.mpr ⟨hmem, hn⟩
  rw [filter_one h] at hfilter
  simpa using hfilter

theorem find_perm {q : ν → Bool} {nodes order : List ν} (h : nodes.countP q ≤ 1) (horder : order.Perm nodes) :
    order.find? q = nodes.find? q := by
  cases hfind : order.find? q with
  | some n => exact (find_mem h (horder.mem_iff.mp (List.mem_of_find?_eq_some hfind)) (List.find?_some hfind)).symm
  | none =>
    rw [eq_comm, List.find?_eq_none]
    intro x hx
    exact List.find?_eq_none.mp hfind x (horder.mem_iff.mpr hx)

/-- In whatever order they come, the date is the one that is meant, or the first source spoils it. -/
theorem after_perm {nodes order : List ν} (hprimary : nodes.countP sources.primary ≤ 1)
    (hsecondary : nodes.countP sources.secondary ≤ 1) (horder : order.Perm nodes) (hfine : ¬ sources.Spoilt nodes) :
    sources.after order none = sources.preferred nodes := by
  have hone : order.countP sources.primary ≤ 1 := (horder.countP_eq _).trans_le hprimary
  have htwo : order.countP sources.secondary ≤ 1 := (horder.countP_eq _).trans_le hsecondary
  by_cases hany : ∃ n ∈ order, sources.primary n = true
  · obtain ⟨n, hmem, hn⟩ := hany
    obtain ⟨l, r, rfl⟩ := List.append_of_mem hmem
    have hr : ∀ x ∈ r, sources.primary x = false := by
      rw [List.countP_append, List.countP_cons_of_pos hn] at hone
      have hzero : r.countP sources.primary = 0 := by omega
      intro x hx
      simpa using List.countP_eq_zero.mp hzero x hx
    have hnodes := find_mem hprimary (horder.mem_iff.mp hmem) hn
    rw [sources.after_eq hn hr, preferred, hnodes, Option.bind_some]
    cases hread : sources.readPrimary n with
    | some d => rfl
    | none =>
      -- no second source is readable, wherever it stands
      have hnone : ∀ x ∈ nodes, sources.secondary x = true → sources.readSecondary x = none := by
        intro x hx hs
        by_contra hsome
        exact hfine ⟨⟨n, horder.mem_iff.mp hmem, hn, hread⟩, x, hx, hs, Option.isSome_iff_ne_none.mpr hsome⟩
      have hleft : (r.filter sources.secondary).findSome? sources.readSecondary = none := by
        rw [List.findSome?_eq_none_iff]
        intro x hx
        obtain ⟨hx, hs⟩ := List.mem_filter.mp hx
        exact hnone x (horder.mem_iff.mp (List.mem_append_right _ (List.mem_cons_of_mem _ hx))) hs
      rw [hleft]
      cases hfind : nodes.find? sources.secondary with
      | none => rfl
      | some x =>
        rw [Option.bind_some, hnone x (List.mem_of_find?_eq_some hfind) (List.find?_some hfind)]
  · have hno : ∀ n ∈ order, sources.primary n = false := by
      intro n hn
      by_contra h
      exact hany ⟨n, hn, by simpa using h⟩
    have hnodes : nodes.find? sources.primary = none := by
      rw [← find_perm hprimary horder, List.find?_eq_none]
      intro n hn
      simp [hno n hn]
    rw [sources.after_secondary hno, preferred, hnodes, filter_one htwo, find_perm hsecondary horder]
    cases nodes.find? sources.secondary with
    | none => rfl
    | some n => simp

/-- A second source in front of an unreadable first one is lost. -/
theorem after_spoilt [DecidableEq ν] {nodes : List ν} (hprimary : nodes.countP sources.primary ≤ 1)
    (hsecondary : nodes.countP sources.secondary ≤ 1) (hspoilt : sources.Spoilt nodes) :
    ∃ order, order.Perm nodes ∧ sources.after order none ≠ sources.preferred nodes := by
  obtain ⟨⟨n, hmem, hn, hread⟩, x, hx, hs, hsome⟩ := hspoilt
  have hne : n ≠ x := by
    rintro rfl
    rw [sources.disjoint n hn] at hs
    exact Bool.false_ne_true hs
  have hperm : (x :: n :: (nodes.erase x).erase n).Perm nodes :=
    ((List.perm_cons_erase hx).trans (List.Perm.cons x (List.perm_cons_erase ((List.mem_erase_of_ne hne).mpr hmem)))).symm
  have hxprimary : sources.primary x = false := by
    cases h : sources.primary x with
    | false => rfl
    | true =>
      rw [sources.disjoint x h] at hs
      exact absurd hs Bool.false_ne_true
  have hone := (hperm.countP_eq sources.primary).trans_le hprimary
  have htwo := (hperm.countP_eq sources.secondary).trans_le hsecondary
  rw [List.countP_cons_of_neg (by simp [hxprimary]), List.countP_cons_of_pos hn] at hone
  rw [List.countP_cons_of_pos hs, List.countP_cons_of_neg (by simp [sources.disjoint n hn])] at htwo
  have hrest : ∀ y ∈ (nodes.erase x).erase n, sources.primary y = false := by
    have hzero : ((nodes.erase x).erase n).countP sources.primary = 0 := by omega
    intro y hy
    simpa using List.countP_eq_zero.mp hzero y hy
  have hnil : ((nodes.erase x).erase n).filter sources.secondary = [] := by
    rw [← List.length_eq_zero_iff, ← List.countP_eq_length_filter]
    omega
  refine ⟨_, hperm, ?_⟩
  show sources.after ([x] ++ n :: (nodes.erase x).erase n) none ≠ _
  rw [sources.after_eq hn hrest, hread, hnil, preferred, find_mem hprimary hmem hn, find_mem hsecondary hx hs]
  obtain ⟨d, hd⟩ := Option.isSome_iff_exists.mp hsome
  simp [hread, hd]

theorem free_iff [DecidableEq ν] {nodes : List ν} (hprimary : nodes.countP sources.primary ≤ 1)
    (hsecondary : nodes.countP sources.secondary ≤ 1) :
    (∀ order, order.Perm nodes → sources.after order none = sources.preferred nodes) ↔ ¬ sources.Spoilt nodes := by
  constructor
  · intro hfree hspoilt
    obtain ⟨order, horder, hne⟩ := sources.after_spoilt hprimary hsecondary hspoilt
    exact hne (hfree order horder)
  · intro hfine order horder
    exact sources.after_perm hprimary hsecondary horder hfine

end Sources

/-! ## the dates of items -/

inductive ItemFormat where
  | feedEntry | rssChannelItem
  deriving DecidableEq

theorem isTargetElement_name {node : Node} {ns : Option Bytes} {name : Bytes}
    (h : isTargetElement node ns name = true) : node.name = some name := by
  unfold isTargetElement at h
  exact (of_decide_eq_true h).2.1

theorem isTargetElement_other {node : Node} {ns : Option Bytes} {name : Bytes}
    (h : isTargetElement node ns name = true) {name' : Bytes} (hne : name ≠ name') (ns' : Option Bytes) :
    isTargetElement node ns' name' = false := by
  rw [Bool.eq_false_iff]
  intro h'
  exact hne (Option.some.inj ((isTargetElement_name h).symm.trans (isTargetElement_name h')))

/-- who gives the date of an Atom entry -/
def feedEntrySources (fresh : Date) : Sources Node Date where
  primary node := isTargetElement node none Name_published || isTargetElement node none Name_issued
  secondary node := isTargetElement node none Name_updated || isTargetElement node none Name_modified
  readPrimary node := readDate fresh parseRFC3339DateTime node.children
  readSecondary node := readDate fresh parseRFC3339DateTime node.children
  disjoint node h := by
    rcases Bool.or_eq_true_iff.mp h with h | h
    · rw [isTargetElement_other h (by decide), isTargetElement_other h (by decide), Bool.or_self]
    · rw [isTargetElement_other h (by decide), isTargetElement_other h (by decide), Bool.or_self]

def rssChannelItemSources (fresh : Date) : Sources Node Date where
  primary node := isTargetElement node none Name_pubDate
  secondary node := isTargetElement node (some Name_dc) Name_date
  readPrimary node := readDate fresh parseRFC5322DateTime node.children
  readSecondary node := readDate fresh parseW3CDateTime node.children
  disjoint _ h := isTargetElement_other h (by decide) _

section
variable (makeUTF16 : Bytes → Option (List UInt16)) (fresh : Date)

def sourcesOf : ItemFormat → Sources Node Date
  | .feedEntry => feedEntrySources fresh
  | .rssChannelItem => rssChannelItemSources fresh

def itemChild : ItemFormat → Item → Node → Item
  | .feedEntry => feedEntryChild makeUTF16 fresh
  | .rssChannelItem => rssChannelItemChild makeUTF16 fresh

def nodeItem : ItemFormat → List Item → List Node → List Item
  | .feedEntry => nodeFeedEntry makeUTF16 fresh
  | .rssChannelItem => nodeRssChannelItem makeUTF16 fresh

theorem feedEntryChild_date (item : Item) (n : Node) :
    (feedEntryChild makeUTF16 fresh item n).date = (feedEntrySources fresh).step item.date n := by
  have hother : ∀ name, isTargetElement n none name = true →
      name ∉ [Name_published, Name_issued, Name_updated, Name_modified] →
      (feedEntrySources fresh).step item.date n = item.date := by
    intro name h hname
    simp only [List.mem_cons, List.not_mem_nil, or_false, not_or] at hname
    obtain ⟨h1, h2, h3, h4⟩ := hname
    simp [Sources.step, feedEntrySources, isTargetElement_other h h1, isTargetElement_other h h2,
      isTargetElement_other h h3, isTargetElement_other h h4]
  unfold feedEntryChild
  iterate 4
    split
    · next h => exact (hother _ h (by decide)).symm
  split
  · next h => exact (if_pos h).symm
  split
  · next h h' => exact ((if_neg h).trans (if_pos h')).symm
  · next h h' => exact ((if_neg h).trans (if_neg h')).symm

theorem rssChannelItemChild_date (item : Item) (n : Node) :
    (rssChannelItemChild makeUTF16 fresh item n).date = (rssChannelItemSources fresh).step item.date n := by
  have hother : ∀ ns name, isTargetElement n ns name = true → name ∉ [Name_pubDate, Name_date] →
      (rssChannelItemSources fresh).step item.date n = item.date := by
    intro ns name h hname
    simp only [List.mem_cons, List.not_mem_nil, or_false, not_or] at hname
    obtain ⟨h1, h2⟩ := hname
    simp [Sources.step, rssChannelItemSources, isTargetElement_other h h1, isTargetElement_other h h2]
  unfold rssChannelItemChild
  iterate 4
    split
    · next h => exact (hother _ _ h (by decide)).symm
  split
  · next h => exact (if_pos h).symm
  split
  · next h h' => exact ((if_neg h).trans (if_pos h')).symm
  · next h h' => exact ((if_neg h).trans (if_neg h')).symm

theorem itemChild_date (format : ItemFormat) (item : Item) (n : Node) :
    (itemChild makeUTF16 fresh format item n).date = (sourcesOf fresh format).step item.date n := by
  cases format with
  | feedEntry => exact feedEntryChild_date makeUTF16 fresh item n
  | rssChannelItem => exact rssChannelItemChild_date makeUTF16 fresh item n

theorem item_date (format : ItemFormat) (children : List Node) (item : Item) :
    (children.foldl (itemChild makeUTF16 fresh format) item).date = (sourcesOf fresh format).after children item.date := by
  induction children generalizing item with
  | nil => rfl
  | cons n children ih =>
    rw [List.foldl_cons, ih, itemChild_date]
    rfl

theorem nodeItem_eq (format : ItemFormat) (items : List Item) (children : List Node) :
    nodeItem makeUTF16 fresh format items children =
      items ++ [children.foldl (itemChild makeUTF16 fresh format) Item.empty] := by
  cases format <;> rfl

/-- The item has the date that is meant, whatever the order of its children. -/
def OrderFree (format : ItemFormat) (items : List Item) (children : List Node) : Prop :=
  ∀ order, order.Perm children → ∃ item, nodeItem makeUTF16 fresh format items order = items ++ [item] ∧
    item.date = (sourcesOf fresh format).preferred children

/-- The order of the children does not matter, unless the first source of the date is there but unreadable and the second
one is readable. -/
theorem orderFree_iff (format : ItemFormat) (items : List Item) (children : List Node)
    (hprimary : children.countP (sourcesOf fresh format).primary ≤ 1)
    (hsecondary : children.countP (sourcesOf fresh format).secondary ≤ 1) :
    OrderFree makeUTF16 fresh format items children ↔ ¬ (sourcesOf fresh format).Spoilt children := by
  rw [← Sources.free_iff _ hprimary hsecondary]
  constructor
  · intro h order horder
    obtain ⟨item, hitem, hdate⟩ := h order horder
    rw [nodeItem_eq] at hitem
    obtain rfl := List.singleton_inj.mp (List.append_cancel_left hitem)
    exact (item_date makeUTF16 fresh format order Item.empty).symm.trans hdate
  · intro h order horder
    exact ⟨_, nodeItem_eq makeUTF16 fresh format items order,
      (item_date makeUTF16 fresh format order Item.empty).trans (h order horder)⟩

end

/-! ## two children -/

def textChild (name : Bytes) (text : Bytes) : Node where
  type := .XML_ELEMENT_NODE
  name := some name
  ns_prefix := none
  children := [{ type := .XML_TEXT_NODE, content := some text }]
  properties := []

def someDate : Bytes :=
  octets ['2', '0', '0', '1', '-', '0', '1', '-', '0', '1', 'T', '0', '0', ':', '0', '0', ':', '0', '0', 'Z']

def epoch : Date :=
  { type := .EType_Y, year := 0, mon := 0, mday := 0, hour := 0, min := 0, sec := 0, zone := 0 }

/-- an entry with both dates -/
theorem orderFree_entry : OrderFree (fun _ => none) epoch .feedEntry []
    [textChild Name_updated someDate, textChild Name_published someDate] :=
  (orderFree_iff (fun _ => none) epoch .feedEntry [] _ (by decide) (by decide)).mpr (by decide)

/-- an entry that was updated and whose first date is empty: it has no date, but with its children swapped it has one -/
theorem entry_without_date :
    let updated := textChild Name_updated someDate
    let published := textChild Name_published []
    ((nodeFeedEntry (fun _ => none) epoch [] [updated, published]).map (·.date.isSome)) = [false] ∧
      ((nodeFeedEntry (fun _ => none) epoch [] [published, updated]).map (·.date.isSome)) = [true] ∧
      ¬ OrderFree (fun _ => none) epoch .feedEntry [] [updated, published] := by
  refine ⟨by decide, by decide, ?_⟩
  intro h
  obtain ⟨item, hitem, hdate⟩ := h _ (List.Perm.refl _)
  have hnone : [item].map (·.date.isSome) = [false] := by
    rw [← List.nil_append [item], ← hitem]
    decide
  rw [List.map_singleton, hdate] at hnone
  exact absurd hnone (by decide)

end Rss
end Wkc
