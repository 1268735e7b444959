import Compliance.Xml
import Mathlib.Data.List.Basic

/-! # Reading a document back

No text in an element can be taken for a tag, and no attribute for the end of one, so a document
says which elements it was written from. Two things are lost: the line ends of a text, which are
written as line feeds, and whether an element without content was meant to hold a text.

* `endsName`, `isName`, `Element.WellNamed`: names that end where the tag goes on.
* `Element.seen`: the element that a document shows.
* `run_inj`, `flatMap_escapeChar_inj`, `attributesText_inj`: what can be read off a text whatever
  stands behind it: a run of characters, an escaped text, the attributes of a tag.
* `Element.Readable`: so can the element. `Element.layouts_inj`, `Element.rest_inj`: if its children
  can; `Element.readable`: every element can, by induction.
* `document_inj`: documents of one text show the same element.
-/

namespace Compliance.Xml

/-- The character ends a name in a tag. -/
def endsName (c : Char) : Bool := ['=', ' ', '/', '>'].contains c

/-- The text is a name: no character of it ends one. -/
def isName (s : String) : Bool := !s.isEmpty && s.toList.all fun c => !endsName c

namespace Element

def name : Element → String
  | .leaf name _ _ => name
  | .node name _ _ => name

def attributes : Element → List (String × String)
  | .leaf _ attributes _ => attributes
  | .node _ attributes _ => attributes

def children : Element → List Element
  | .leaf _ _ _ => []
  | .node _ _ children => children

/-- The names of an element, of its attributes and of all that is in it are names. -/
inductive WellNamed : Element → Prop
  | leaf {name : String} {attributes : List (String × String)} {text : String} :
    isName name = true → (∀ a ∈ attributes, isName a.1 = true) →
    WellNamed (.leaf name attributes text)
  | node {name : String} {attributes : List (String × String)} {children : List Element} :
    isName name = true → (∀ a ∈ attributes, isName a.1 = true) →
    (∀ e ∈ children, WellNamed e) → WellNamed (.node name attributes children)

mutual

/-- The element that is seen in a document: line ends are line feeds, and what holds an empty text
holds nothing. -/
def seen : Element → Element
  | .leaf name attributes text =>
    if text.isEmpty then .node name attributes []
    else .leaf name attributes (String.ofList (Text.unifyLines text.toList))
  | .node name attributes children => .node name attributes (seenAll children)

def seenAll : List Element → List Element
  | [] => []
  | e :: r => seen e :: seenAll r

end

theorem seenAll_eq_map (es : List Element) : seenAll es = es.map seen := by
  induction es with
  | nil => rfl
  | cons e es ih => rw [seenAll, ih, List.map_cons]

/-- Induction over elements, with the children as a list. -/
theorem induct {motive : Element → Prop}
    (leaf : ∀ name attributes text, motive (.leaf name attributes text))
    (node : ∀ name attributes children, (∀ e ∈ children, motive e) →
      motive (.node name attributes children)) : ∀ e, motive e
  | .leaf name attributes text => leaf name attributes text
  | .node name attributes children => node name attributes children fun e _ => induct leaf node e

end Element

theorem isName_of_map {as : List (String × String)} {names : List String}
    (h : names.all isName = true) (hnames : as.map (·.1) = names) :
    ∀ a ∈ as, isName a.1 = true :=
  fun _ ha => List.all_eq_true.mp h _ (hnames ▸ List.mem_map_of_mem ha)

/-! ## Runs of characters -/

/-- The text does not begin with a character of the run. -/
def Stops (run : Char → Bool) (r : List Char) : Prop := ∀ c ∈ r.head?, run c = false

theorem stops_cons {run : Char → Bool} {c : Char} (h : run c = false) (r : List Char) :
    Stops run (c :: r) := by
  intro d hd
  rw [← Option.some.inj hd]
  exact h

/-- **A run can be read off**, together with what stands behind it. -/
theorem run_inj {run : Char → Bool} {xs ys r r' : List Char} (hx : ∀ c ∈ xs, run c = true)
    (hy : ∀ c ∈ ys, run c = true) (hr : Stops run r) (hr' : Stops run r')
    (h : xs ++ r = ys ++ r') : xs = ys ∧ r = r' := by
  induction xs generalizing ys with
  | nil =>
    cases ys with
    | nil => exact ⟨rfl, h⟩
    | cons y ys =>
      have hhead : r.head? = some y := by
        rw [List.nil_append] at h
        rw [h]
        rfl
      have hfalse := hr y hhead
      rw [hy y List.mem_cons_self] at hfalse
      cases hfalse
  | cons x xs ih =>
    cases ys with
    | nil =>
      have hhead : r'.head? = some x := by
        rw [List.nil_append] at h
        rw [← h]
        rfl
      have hfalse := hr' x hhead
      rw [hx x List.mem_cons_self] at hfalse
      cases hfalse
    | cons y ys =>
      obtain ⟨rfl, htail⟩ := List.cons.inj h
      obtain ⟨rfl, hrest⟩ := ih (fun c hc => hx c (List.mem_cons_of_mem _ hc))
        (fun c hc => hy c (List.mem_cons_of_mem _ hc)) htail
      exact ⟨rfl, hrest⟩

/-! ## Escaped texts -/

/-- The characters that are written by a name. -/
def special : List Char := ['&', '<', '>', '"']

theorem escapeChar_of_notMem {c : Char} (h : c ∉ special) : escapeChar c = [c] := by
  simp only [special, List.mem_cons, List.not_mem_nil, or_false, not_or] at h
  obtain ⟨hamp, hlt, hgt, hquot⟩ := h
  rw [escapeChar, if_neg hamp, if_neg hlt, if_neg hgt, if_neg hquot]

theorem escapeChar_of_mem {c : Char} (h : c ∈ special) : ∃ name, escapeChar c = '&' :: name := by
  simp only [special, List.mem_cons, List.not_mem_nil, or_false] at h
  rcases h with rfl | rfl | rfl | rfl <;> exact ⟨_, rfl⟩

/-- A written character can be read off: an ampersand begins a name, and no name begins another. -/
theorem escapeChar_inj {c d : Char} {r r' : List Char}
    (h : escapeChar c ++ r = escapeChar d ++ r') : c = d ∧ r = r' := by
  by_cases hc : c ∈ special
  · by_cases hd : d ∈ special
    · simp only [special, List.mem_cons, List.not_mem_nil, or_false] at hc hd
      rcases hc with rfl | rfl | rfl | rfl <;> rcases hd with rfl | rfl | rfl | rfl <;>
        simp_all [escapeChar]
    · obtain ⟨name, hname⟩ := escapeChar_of_mem hc
      rw [hname, escapeChar_of_notMem hd] at h
      exact absurd ((List.cons.inj h).1 ▸ List.mem_cons_self) hd
  · by_cases hd : d ∈ special
    · obtain ⟨name, hname⟩ := escapeChar_of_mem hd
      rw [hname, escapeChar_of_notMem hc] at h
      exact absurd ((List.cons.inj h).1 ▸ List.mem_cons_self) hc
    · rw [escapeChar_of_notMem hc, escapeChar_of_notMem hd] at h
      exact List.cons.inj h

theorem escapeChar_ne_nil (c : Char) : escapeChar c ≠ [] := by
  by_cases hc : c ∈ special
  · obtain ⟨name, hname⟩ := escapeChar_of_mem hc
    rw [hname]
    exact List.cons_ne_nil _ _
  · rw [escapeChar_of_notMem hc]
    exact List.cons_ne_nil _ _

theorem flatMap_escapeChar_inj : ∀ {cs ds : List Char},
    cs.flatMap escapeChar = ds.flatMap escapeChar → cs = ds
  | [], [], _ => rfl
  | [], d :: ds, h => by
    rw [List.flatMap_nil, List.flatMap_cons] at h
    exact absurd (List.append_eq_nil_iff.mp h.symm).1 (escapeChar_ne_nil d)
  | c :: cs, [], h => by
    rw [List.flatMap_nil, List.flatMap_cons] at h
    exact absurd (List.append_eq_nil_iff.mp h).1 (escapeChar_ne_nil c)
  | c :: cs, d :: ds, h => by
    rw [List.flatMap_cons, List.flatMap_cons] at h
    obtain ⟨rfl, hrest⟩ := escapeChar_inj h
    rw [flatMap_escapeChar_inj hrest]

theorem toList_escape (s : String) : (escape s).toList = s.toList.flatMap escapeChar :=
  String.toList_ofList

theorem escape_inj {s t : String} (h : escape s = escape t) : s = t := by
  have hchars := congrArg String.toList h
  rw [toList_escape, toList_escape] at hchars
  exact String.toList_inj.mp (flatMap_escapeChar_inj hchars)

/-- No escaped text holds a quote or the beginning of a tag. -/
theorem mem_escape {s : String} {c : Char} (h : c ∈ (escape s).toList) : c ≠ '"' ∧ c ≠ '<' := by
  rw [toList_escape] at h
  obtain ⟨d, -, hd⟩ := List.mem_flatMap.mp h
  by_cases hs : d ∈ special
  · simp only [special, List.mem_cons, List.not_mem_nil, or_false] at hs
    rcases hs with rfl | rfl | rfl | rfl <;> simp [escapeChar] at hd <;> grind
  · rw [escapeChar_of_notMem hs, List.mem_singleton] at hd
    subst hd
    constructor
    · rintro rfl
      exact hs (by decide)
    · rintro rfl
      exact hs (by decide)

/-- **An escaped text can be read off** if a quote or a tag stands behind it. -/
theorem escape_append_inj {s t : String} {c : Char} (hc : c = '"' ∨ c = '<') {r r' : List Char}
    (h : (escape s).toList ++ c :: r = (escape t).toList ++ c :: r') : s = t ∧ r = r' := by
  have hrun : ∀ u : String, ∀ d ∈ (escape u).toList, (d != '"' && d != '<') = true := by
    intro u d hd
    obtain ⟨hquot, hlt⟩ := mem_escape hd
    simp [hquot, hlt]
  have hstop : (c != '"' && c != '<') = false := by
    rcases hc with rfl | rfl <;> decide
  obtain ⟨htext, hrest⟩ := run_inj (hrun s) (hrun t) (stops_cons hstop r) (stops_cons hstop r') h
  exact ⟨escape_inj (String.toList_inj.mp htext), (List.cons.inj hrest).2⟩

/-! ## Tags -/

theorem attributesText_cons (a : String × String) (as : List (String × String)) :
    attributesText (a :: as) = " " ++ a.1 ++ "=\"" ++ escape a.2 ++ "\"" ++ attributesText as := by
  unfold attributesText
  rw [List.map_cons, String.join_cons]

theorem attributesText_cons_append (a : String × String) (as : List (String × String))
    (r : List Char) :
    (attributesText (a :: as)).toList ++ r = ' ' :: (a.1.toList ++ '=' :: '"' ::
      ((escape a.2).toList ++ '"' :: ((attributesText as).toList ++ r))) := by
  rw [attributesText_cons]
  simp

/-- What stands behind the attributes of a tag: the tag ends, or the element does. -/
def EndsTag (r : List Char) : Prop := ∃ c t, r = c :: t ∧ (c = '/' ∨ c = '>')

theorem name_run {s : String} (h : isName s = true) :
    ∀ c ∈ s.toList, (!endsName c) = true :=
  List.all_eq_true.mp (Bool.and_eq_true_iff.mp h).2

theorem name_ne_slash {s : String} (h : isName s = true) (r t : List Char) :
    s.toList ++ r ≠ '/' :: t := by
  intro hslash
  cases hname : s.toList with
  | nil =>
    obtain ⟨hne, -⟩ := Bool.and_eq_true_iff.mp h
    rw [String.toList_eq_nil_iff.mp hname] at hne
    cases hne
  | cons c cs =>
    have hc := name_run h c (hname ▸ List.mem_cons_self)
    rw [hname, List.cons_append] at hslash
    rw [(List.cons.inj hslash).1] at hc
    cases hc

/-- **The attributes of a tag can be read off.** -/
theorem attributesText_inj {as bs : List (String × String)} {r r' : List Char}
    (ha : ∀ a ∈ as, isName a.1 = true) (hb : ∀ b ∈ bs, isName b.1 = true) (hr : EndsTag r)
    (hr' : EndsTag r')
    (h : (attributesText as).toList ++ r = (attributesText bs).toList ++ r') :
    as = bs ∧ r = r' := by
  have hblank : ∀ {r : List Char} {t : List Char}, EndsTag r → r ≠ ' ' :: t := by
    rintro r t ⟨c, u, rfl, rfl | rfl⟩ heq
    · simp at heq
    · simp at heq
  induction as generalizing bs with
  | nil =>
    cases bs with
    | nil => exact ⟨rfl, h⟩
    | cons b bs =>
      rw [attributesText_cons_append] at h
      exact absurd h (hblank hr)
  | cons a as ih =>
    cases bs with
    | nil =>
      rw [attributesText_cons_append] at h
      exact absurd h.symm (hblank hr')
    | cons b bs =>
      obtain ⟨hname, ha⟩ := List.forall_mem_cons.mp ha
      obtain ⟨hname', hb⟩ := List.forall_mem_cons.mp hb
      rw [attributesText_cons_append, attributesText_cons_append] at h
      obtain ⟨hnames, hvalues⟩ := run_inj (name_run hname) (name_run hname')
        (stops_cons (by decide) _) (stops_cons (by decide) _) (List.cons.inj h).2
      simp only [List.cons.injEq, true_and] at hvalues
      obtain ⟨hvalue, hrest⟩ := escape_append_inj (.inl rfl) hvalues
      obtain ⟨rfl, hend⟩ := ih ha hb hrest
      exact ⟨by rw [Prod.ext (String.toList_inj.mp hnames) hvalue], hend⟩

theorem tag_inj {name name' : String} {as bs : List (String × String)} {r r' : List Char}
    (hname : isName name = true) (hname' : isName name' = true) (ha : ∀ a ∈ as, isName a.1 = true)
    (hb : ∀ b ∈ bs, isName b.1 = true) (hr : EndsTag r) (hr' : EndsTag r')
    (h : name.toList ++ ((attributesText as).toList ++ r) =
      name'.toList ++ ((attributesText bs).toList ++ r')) : name = name' ∧ as = bs ∧ r = r' := by
  have hstop : ∀ {r : List Char} (cs : List (String × String)), EndsTag r →
      Stops (fun c => !endsName c) ((attributesText cs).toList ++ r) := by
    intro r cs hr
    cases cs with
    | nil =>
      obtain ⟨c, t, rfl, rfl | rfl⟩ := hr
      · exact stops_cons (by decide) t
      · exact stops_cons (by decide) t
    | cons c cs =>
      rw [attributesText_cons_append]
      exact stops_cons (by decide) _
  obtain ⟨hnames, hrest⟩ :=
    run_inj (name_run hname) (name_run hname') (hstop as hr) (hstop bs hr') h
  obtain ⟨hattributes, hend⟩ := attributesText_inj ha hb hr hr' hrest
  exact ⟨String.toList_inj.mp hnames, hattributes, hend⟩

/-! ## Elements -/

namespace Element

/-- What is written of an element behind its attributes. -/
def rest (indent : String) : Element → String
  | .leaf name _ text =>
    if text.isEmpty then "/>\n"
    else ">" ++ escape (String.ofList (Text.unifyLines text.toList)) ++ "</" ++ name ++ ">\n"
  | .node name _ children =>
    match children with
    | [] => "/>\n"
    | children => ">\n" ++ layouts (indent ++ "  ") children ++ indent ++ "</" ++ name ++ ">\n"

theorem layout_eq (indent : String) (e : Element) :
    layout indent e = indent ++ "<" ++ e.name ++ attributesText e.attributes ++ e.rest indent := by
  cases e with
  | leaf name attributes text =>
    rw [layout, rest]
    dsimp only [Element.name, Element.attributes]
    split
    · rfl
    · simp only [String.append_assoc]
  | node name attributes children =>
    cases children with
    | nil => rfl
    | cons c cs =>
      rw [layout, rest]
      · simp only [Element.name, Element.attributes, String.append_assoc]
      · exact List.cons_ne_nil c cs
      · exact List.cons_ne_nil c cs

theorem toList_layout (indent : String) (e : Element) (r : List Char) :
    (layout indent e).toList ++ r = indent.toList ++ '<' :: (e.name.toList ++
      ((attributesText e.attributes).toList ++ ((e.rest indent).toList ++ r))) := by
  rw [layout_eq]
  simp

/-- An element goes on in one of three ways behind its attributes. -/
theorem rest_cases (indent : String) (e : Element) :
    (e.rest indent = "/>\n" ∧ e.seen = .node e.name e.attributes []) ∨
    (∃ text, e.rest indent = ">" ++ escape text ++ "</" ++ e.name ++ ">\n" ∧
      e.seen = .leaf e.name e.attributes text) ∨
    (e.children ≠ [] ∧ e.rest indent =
        ">\n" ++ layouts (indent ++ "  ") e.children ++ indent ++ "</" ++ e.name ++ ">\n" ∧
      e.seen = .node e.name e.attributes (seenAll e.children)) := by
  cases e with
  | leaf name attributes text =>
    rw [rest, seen]
    by_cases hempty : text.isEmpty = true
    · rw [if_pos hempty, if_pos hempty]
      exact .inl ⟨rfl, rfl⟩
    · rw [if_neg hempty, if_neg hempty]
      exact .inr (.inl ⟨_, rfl, rfl⟩)
  | node name attributes children =>
    cases children with
    | nil => exact .inl ⟨rfl, rfl⟩
    | cons c cs => exact .inr (.inr ⟨List.cons_ne_nil c cs, rfl, rfl⟩)

theorem endsTag_rest (indent : String) (e : Element) (r : List Char) :
    EndsTag ((e.rest indent).toList ++ r) := by
  rcases rest_cases indent e with ⟨h, -⟩ | ⟨text, h, -⟩ | ⟨-, h, -⟩
  · rw [h]
    exact ⟨'/', _, rfl, .inl rfl⟩
  · rw [h]
    exact ⟨'>', _, by simp; rfl, .inr rfl⟩
  · rw [h]
    exact ⟨'>', _, by simp; rfl, .inr rfl⟩

namespace WellNamed

variable {e : Element}

theorem children (h : e.WellNamed) : ∀ c ∈ e.children, c.WellNamed := by
  cases h with
  | leaf _ _ => exact fun c hc => absurd hc List.not_mem_nil
  | node _ _ h => exact h

theorem name (h : e.WellNamed) : isName e.name = true := by
  cases h with
  | leaf h _ => exact h
  | node h _ _ => exact h

theorem attributes (h : e.WellNamed) : ∀ a ∈ e.attributes, isName a.1 = true := by
  cases h with
  | leaf _ h => exact h
  | node _ h _ => exact h

end WellNamed

def IsBlank (indent : String) : Prop := ∀ c ∈ indent.toList, c = ' '

/-- **The element can be read off** whatever stands behind it. -/
def Readable (e : Element) : Prop :=
  ∀ {e' : Element} {indent : String} {r r' : List Char}, e.WellNamed → e'.WellNamed →
    IsBlank indent → (layout indent e).toList ++ r = (layout indent e').toList ++ r' →
    e.seen = e'.seen ∧ r = r'

/-- **Elements one below the other can be read off** if each can: the tag behind them ends an
element, and is not as deep. -/
theorem layouts_inj {es es' : List Element} {indent : String} {r r' : List Char}
    (hes : ∀ e ∈ es, e.Readable) (hn : ∀ e ∈ es, e.WellNamed) (hn' : ∀ e ∈ es', e.WellNamed)
    (hblank : IsBlank indent)
    (h : (layouts (indent ++ "  ") es).toList ++ (indent.toList ++ '<' :: '/' :: r) =
      (layouts (indent ++ "  ") es').toList ++ (indent.toList ++ '<' :: '/' :: r')) :
    seenAll es = seenAll es' ∧ r = r' := by
  have hdeeper : ∀ (e : Element) (es : List Element) (t u : List Char),
      indent.toList ++ '<' :: t ≠ (layouts (indent ++ "  ") (e :: es)).toList ++ u := by
    intro e es t u heq
    rw [layouts, String.toList_append, List.append_assoc, toList_layout, String.toList_append,
      List.append_assoc] at heq
    have hhead := List.append_cancel_left heq
    simp at hhead
  have hinner : IsBlank (indent ++ "  ") := by
    intro c hc
    rw [String.toList_append] at hc
    rcases List.mem_append.mp hc with hc | hc
    · exact hblank c hc
    · simpa using hc
  induction es generalizing es' with
  | nil =>
    cases es' with
    | nil =>
      have hrest := List.append_cancel_left (List.append_cancel_left h)
      simp only [List.cons.injEq, true_and] at hrest
      exact ⟨rfl, hrest⟩
    | cons e' es' => exact absurd h (hdeeper e' es' _ _)
  | cons e es ih =>
    cases es' with
    | nil => exact absurd h.symm (hdeeper e es _ _)
    | cons e' es' =>
      obtain ⟨hread, hes⟩ := List.forall_mem_cons.mp hes
      obtain ⟨hname, hn⟩ := List.forall_mem_cons.mp hn
      obtain ⟨hname', hn'⟩ := List.forall_mem_cons.mp hn'
      rw [layouts, layouts, String.toList_append, String.toList_append, List.append_assoc,
        List.append_assoc] at h
      obtain ⟨hseen, hmore⟩ := hread hname hname' hinner h
      obtain ⟨hall, hrest⟩ := ih hes hn hn' hmore
      exact ⟨by rw [seenAll, seenAll, hseen, hall], hrest⟩

theorem toList_text (text name : String) (r : List Char) :
    (">" ++ escape text ++ "</" ++ name ++ ">\n").toList ++ r =
      '>' :: ((escape text).toList ++ '<' :: '/' :: (name.toList ++ '>' :: '\n' :: r)) := by
  simp

theorem toList_children (indent name : String) (es : List Element) (r : List Char) :
    (">\n" ++ layouts (indent ++ "  ") es ++ indent ++ "</" ++ name ++ ">\n").toList ++ r =
      '>' :: '\n' :: ((layouts (indent ++ "  ") es).toList ++
        (indent.toList ++ '<' :: '/' :: (name.toList ++ '>' :: '\n' :: r))) := by
  simp

/-- A text is not taken for elements: the first tag behind it is an end tag. -/
theorem text_ne_children {text indent : String} {es : List Element} (hblank : IsBlank indent)
    (hn : ∀ e ∈ es, e.WellNamed) (hes : es ≠ []) (r u : List Char) :
    (escape text).toList ++ '<' :: '/' :: r ≠
      '\n' :: ((layouts (indent ++ "  ") es).toList ++ u) := by
  intro h
  obtain ⟨e, es, rfl⟩ := List.exists_cons_of_ne_nil hes
  rw [layouts, String.toList_append, List.append_assoc, toList_layout, String.toList_append,
    ← List.cons_append] at h
  have hrun : ∀ c ∈ (escape text).toList, (c != '<') = true := by
    intro c hc
    simpa using (mem_escape hc).2
  have hrun' : ∀ c ∈ '\n' :: (indent.toList ++ "  ".toList), (c != '<') = true := by
    intro c hc
    rcases List.mem_cons.mp hc with rfl | hc
    · decide
    rcases List.mem_append.mp hc with hc | hc
    · rw [hblank c hc]
      decide
    · have hspace : c = ' ' := by simpa using hc
      rw [hspace]
      decide
  obtain ⟨-, htag⟩ := run_inj hrun hrun' (stops_cons (by decide) _) (stops_cons (by decide) _) h
  exact name_ne_slash (hn e List.mem_cons_self).name _ _ (List.cons.inj htag).2.symm

/-- What stands behind the attributes can be read off if the children can. -/
theorem rest_inj {e e' : Element} {indent : String} {r r' : List Char}
    (hkids : ∀ c ∈ e.children, c.Readable) (hn : e.WellNamed) (hn' : e'.WellNamed)
    (hname : e.name = e'.name) (hattributes : e.attributes = e'.attributes)
    (hblank : IsBlank indent)
    (h : (e.rest indent).toList ++ r = (e'.rest indent).toList ++ r') :
    e.seen = e'.seen ∧ r = r' := by
  -- each holds nothing, a text or elements; the slash of an empty tag and the first tag inside tell
  rcases rest_cases indent e with ⟨hrest, hseen⟩ | ⟨text, hrest, hseen⟩ | ⟨hne, hrest, hseen⟩ <;>
    rcases rest_cases indent e' with ⟨hrest', hseen'⟩ | ⟨text', hrest', hseen'⟩ |
      ⟨hne', hrest', hseen'⟩ <;>
    rw [hrest, hrest'] at h <;> rw [hseen, hseen', ← hname, ← hattributes]
  · exact ⟨rfl, List.append_cancel_left h⟩
  · rw [toList_text] at h
    simp at h
  · rw [toList_children] at h
    simp at h
  · rw [toList_text] at h
    simp at h
  · rw [toList_text, toList_text] at h
    obtain ⟨rfl, hend⟩ := escape_append_inj (.inr rfl) (List.cons.inj h).2
    rw [← hname, List.cons.injEq] at hend
    have hmore := List.append_cancel_left hend.2
    simp only [List.cons.injEq, true_and] at hmore
    exact ⟨rfl, hmore⟩
  · rw [toList_text, toList_children] at h
    exact absurd (List.cons.inj h).2 (text_ne_children hblank hn'.children hne' _ _)
  · rw [toList_children] at h
    simp at h
  · rw [toList_text, toList_children] at h
    exact absurd (List.cons.inj h).2.symm (text_ne_children hblank hn.children hne _ _)
  · rw [toList_children, toList_children] at h
    simp only [List.cons.injEq, true_and] at h
    obtain ⟨hall, hend⟩ := layouts_inj hkids hn.children hn'.children hblank h
    rw [← hname] at hend
    have hmore := List.append_cancel_left hend
    simp only [List.cons.injEq, true_and] at hmore
    exact ⟨by rw [hall], hmore⟩

/-- **Every element can be read off**, by induction on the element. -/
theorem readable (e : Element) : e.Readable := by
  have hstep : ∀ e : Element, (∀ c ∈ e.children, c.Readable) → e.Readable := by
    intro e hkids e' indent r r' hn hn' hblank h
    rw [toList_layout, toList_layout] at h
    have htags := List.append_cancel_left h
    rw [List.cons.injEq] at htags
    obtain ⟨hname, hattributes, hrest⟩ := tag_inj hn.name hn'.name hn.attributes hn'.attributes
      (endsTag_rest indent e r) (endsTag_rest indent e' r') htags.2
    exact rest_inj hkids hn hn' hname hattributes hblank hrest
  induction e using induct with
  | leaf name attributes text => exact hstep _ fun c hc => absurd hc List.not_mem_nil
  | node name attributes children ih => exact hstep (.node name attributes children) ih

end Element

/-- **Documents of one text show the same element.** -/
theorem document_inj {e e' : Element} (h : e.WellNamed) (h' : e'.WellNamed)
    (hsame : document e = document e') : e.seen = e'.seen := by
  have hchars := congrArg String.toList hsame
  unfold document at hchars
  rw [String.toList_append, String.toList_append] at hchars
  have hlayout : (e.layout "").toList ++ [] = (e'.layout "").toList ++ [] := by
    rw [List.append_nil, List.append_nil]
    exact List.append_cancel_left hchars
  exact (e.readable h h' (fun c hc => absurd hc (by simp)) hlayout).1

end Compliance.Xml
