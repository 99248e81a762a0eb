import ExamVan.Lib.Bytes

/-!
# Elements, attributes and text

A scanner that goes over the bytes of a document and gives out tags and texts, and a stack that nests
the elements. A tree that is written with its texts and values escaped is read back.
-/

namespace Xml

open ByteString

/-! ### Entities -/

def escapeByte (c : UInt8) : Bytes :=
  if c = chr '&' then str "&amp;"
  else if c = chr '<' then str "&lt;"
  else if c = chr '>' then str "&gt;"
  else if c = chr '"' then str "&quot;"
  else [c]

def escape (s : Bytes) : Bytes := s.flatMap escapeByte

/-- No control character but for tab and line ends. -/
def isChar (c : UInt8) : Bool := 0x20 ≤ c || c = 9 || c = 10 || c = 13

def entity (name : Bytes) : Option UInt8 :=
  if name = str "amp" then some (chr '&')
  else if name = str "lt" then some (chr '<')
  else if name = str "gt" then some (chr '>')
  else if name = str "quot" then some (chr '"')
  else if name = str "apos" then some (chr '\'')
  else none

/-- With the name of an entity as far as it has been read. -/
def unescapeFrom : Option Bytes → Bytes → Option Bytes
  | none, [] => some []
  | some _, [] => none
  | none, c :: s =>
      if c = chr '&' then unescapeFrom (some []) s else (unescapeFrom none s).map (c :: ·)
  | some name, c :: s =>
      if c = chr ';' then (entity name).bind fun d => (unescapeFrom none s).map (d :: ·)
      else unescapeFrom (some (name ++ [c])) s

def unescape (s : Bytes) : Option Bytes := unescapeFrom none s

theorem unescapeFrom_cons {c : UInt8} (hc : c ≠ chr '&') (s : Bytes) :
    unescapeFrom none (c :: s) = (unescapeFrom none s).map (c :: ·) := if_neg hc

theorem unescapeFrom_escapeByte (c : UInt8) (s : Bytes) :
    unescapeFrom none (escapeByte c ++ s) = (unescapeFrom none s).map (c :: ·) := by
  rw [escapeByte]
  split_ifs with hamp hlt hgt hquot
  · rw [hamp]; rfl
  · rw [hlt]; rfl
  · rw [hgt]; rfl
  · rw [hquot]; rfl
  · exact unescapeFrom_cons hamp s

theorem unescape_escape (s : Bytes) : unescape (escape s) = some s := by
  induction s with
  | nil => rfl
  | cons c s ih =>
      rw [unescape, escape, List.flatMap_cons, unescapeFrom_escapeByte]
      exact (congrArg (Option.map (c :: ·)) ih).trans rfl

theorem escape_eq_self {s : Bytes} (h : ∀ c ∈ s, c ∉ str "&<>\"") : escape s = s := by
  induction s with
  | nil => rfl
  | cons c s ih =>
      rw [List.forall_mem_cons] at h
      have hc : escapeByte c = [c] := by
        have hne : ∀ d ∈ str "&<>\"", c ≠ d := fun d hd heq => h.1 (heq ▸ hd)
        rw [escapeByte, if_neg (hne _ (by decide)), if_neg (hne _ (by decide)), if_neg (hne _ (by decide)),
          if_neg (hne _ (by decide))]
      rw [escape, List.flatMap_cons, hc, List.singleton_append]
      exact congrArg (c :: ·) (ih h.2)

theorem notMem_escape {q : UInt8} (hq : ∀ c, q ∉ escapeByte c) (s : Bytes) : q ∉ escape s := by
  intro hmem
  obtain ⟨c, -, hc⟩ := List.mem_flatMap.mp hmem
  exact hq c hc

theorem lt_notMem_escape (s : Bytes) : chr '<' ∉ escape s :=
  notMem_escape (forall_byte (by decide)) s

theorem quote_notMem_escape (s : Bytes) : chr '"' ∉ escape s :=
  notMem_escape (forall_byte (by decide)) s

/-! ### Scanning -/

abbrev Attrs := List (Bytes × Bytes)

inductive Token
  | text (s : Bytes)
  | opening (name : Bytes) (attrs : Attrs)
  | closing (name : Bytes)
  deriving DecidableEq

/-- Where the scanner is: in a text, behind a `<`, in a name, or at an attribute. -/
inductive Mode
  | text (raw : Bytes)
  | bracket
  | closing (name : Bytes)
  | name (name : Bytes)
  | between (name : Bytes) (attrs : Attrs)
  | key (name : Bytes) (attrs : Attrs) (key : Bytes)
  | equals (name : Bytes) (attrs : Attrs) (key : Bytes)
  | value (name : Bytes) (attrs : Attrs) (key : Bytes) (quote : UInt8) (raw : Bytes)

def isBlank (c : UInt8) : Bool := c = 0x20 || c = 9 || c = 10 || c = 13

def isNameByte (c : UInt8) : Bool :=
  0x20 < c && !(str "<>/=!?&;\"'").contains c

def step : Mode → UInt8 → Option (Mode × List Token)
  | .text raw, c =>
      if c = chr '<' then (unescape raw).map fun t => (.bracket, [.text t])
      else some (.text (raw ++ [c]), [])
  | .bracket, c =>
      if c = chr '/' then some (.closing [], [])
      else if isNameByte c then some (.name [c], [])
      else none
  | .closing name, c =>
      if c = chr '>' then some (.text [], [.closing name])
      else if isNameByte c then some (.closing (name ++ [c]), [])
      else none
  | .name name, c =>
      if c = chr '>' then some (.text [], [.opening name []])
      else if isBlank c then some (.between name [], [])
      else if isNameByte c then some (.name (name ++ [c]), [])
      else none
  | .between name attrs, c =>
      if c = chr '>' then some (.text [], [.opening name attrs])
      else if isBlank c then some (.between name attrs, [])
      else if isNameByte c then some (.key name attrs [c], [])
      else none
  | .key name attrs key, c =>
      if c = chr '=' then some (.equals name attrs key, [])
      else if isNameByte c then some (.key name attrs (key ++ [c]), [])
      else none
  | .equals name attrs key, c =>
      if c = chr '"' ∨ c = chr '\'' then some (.value name attrs key c [], [])
      else none
  | .value name attrs key quote raw, c =>
      if c = quote then (unescape raw).map fun v => (.between name (attrs ++ [(key, v)]), [])
      else if c = chr '<' then none
      else some (.value name attrs key quote (raw ++ [c]), [])

/-- The document ends in a text. -/
def scan : Mode → Bytes → Option (List Token)
  | .text raw, [] => (unescape raw).map fun t => [.text t]
  | _, [] => none
  | m, c :: s => (step m c).bind fun r => (scan r.1 s).map (r.2 ++ ·)

/-- The scan goes over a text, from one mode to another, and gives out these tokens. -/
def Over (m : Mode) (w : Bytes) (out : List Token) (m' : Mode) : Prop :=
  ∀ s, scan m (w ++ s) = (scan m' s).map (out ++ ·)

section

variable {m m' m'' : Mode} {w w' raw t name key v : Bytes} {out out' : List Token} {c quote : UInt8}
  {attrs : Attrs}

theorem scan_cons (m : Mode) (c : UInt8) (s : Bytes) :
    scan m (c :: s) = (step m c).bind fun r => (scan r.1 s).map (r.2 ++ ·) := by
  cases m <;> rfl

theorem over_nil (m : Mode) : Over m [] [] m := by
  intro s
  simp

theorem Over.append (h : Over m w out m') (h' : Over m' w' out' m'') :
    Over m (w ++ w') (out ++ out') m'' := by
  intro s
  rw [List.append_assoc, h, h', Option.map_map]
  simp [Function.comp_def]

theorem over_byte (h : step m c = some (m', out)) : Over m [c] out m' := by
  intro s
  rw [List.singleton_append, scan_cons, h, Option.bind_some]

/-- A byte that is only collected. -/
theorem over_collect (mode : Bytes → Mode) {p : UInt8 → Prop}
    (hmode : ∀ raw c, p c → step (mode raw) c = some (mode (raw ++ [c]), [])) (hw : ∀ c ∈ w, p c)
    (raw : Bytes) : Over (mode raw) w [] (mode (raw ++ w)) := by
  induction w generalizing raw with
  | nil => simpa using over_nil (mode raw)
  | cons c w ih =>
      rw [List.forall_mem_cons] at hw
      have hrest := ih hw.2 (raw ++ [c])
      rw [List.append_assoc, List.singleton_append] at hrest
      exact (over_byte (hmode raw c hw.1)).append hrest

theorem over_text (hw : chr '<' ∉ w) (raw : Bytes) : Over (.text raw) w [] (.text (raw ++ w)) := by
  refine over_collect Mode.text (p := (· ≠ chr '<')) (fun raw c hc => ?_) (fun c hc hlt => hw (hlt ▸ hc)) raw
  exact if_neg hc

/-- A tag follows a text. -/
theorem over_bracket (h : unescape raw = some t) : Over (.text raw) [chr '<'] [.text t] .bracket :=
  over_byte (by rw [step, if_pos rfl, h]; rfl)

theorem ne_of_isNameByte (h : isNameByte c = true) :
    c ≠ chr '/' ∧ c ≠ chr '>' ∧ c ≠ chr '=' ∧ isBlank c = false := by
  revert h
  exact forall_byte (p := fun c => isNameByte c = true →
    c ≠ chr '/' ∧ c ≠ chr '>' ∧ c ≠ chr '=' ∧ isBlank c = false) (by decide) c

/-- A name, and what makes it one. -/
def IsName (name : Bytes) : Prop := name ≠ [] ∧ ∀ c ∈ name, isNameByte c = true

instance (name : Bytes) : Decidable (IsName name) := inferInstanceAs (Decidable (_ ∧ _))

theorem over_closing (h : IsName name) :
    Over .bracket (chr '/' :: (name ++ [chr '>'])) [.closing name] (.text []) := by
  have hname : Over (.closing []) name [] (.closing name) := by
    refine over_collect Mode.closing (fun raw c hc => ?_) h.2 []
    rw [step, if_neg (ne_of_isNameByte hc).2.1, if_pos hc]
  have hslash : Over .bracket [chr '/'] [] (.closing []) := over_byte rfl
  have hend : Over (.closing name) [chr '>'] [.closing name] (.text []) := over_byte rfl
  exact hslash.append (hname.append hend)

theorem over_name (h : IsName name) : Over .bracket name [] (.name name) := by
  obtain ⟨hne, hall⟩ := h
  cases name with
  | nil => exact absurd rfl hne
  | cons c name =>
      rw [List.forall_mem_cons] at hall
      have hfirst : step .bracket c = some (.name [c], []) := by
        rw [step, if_neg (ne_of_isNameByte hall.1).1, if_pos hall.1]
      refine (over_byte hfirst).append (over_collect Mode.name (fun raw c hc => ?_) hall.2 [c])
      rw [step, if_neg (ne_of_isNameByte hc).2.1, if_neg (by rw [(ne_of_isNameByte hc).2.2.2]; decide),
        if_pos hc]

def attrText (a : Bytes × Bytes) : Bytes :=
  chr ' ' :: (a.1 ++ str "=\"" ++ escape a.2 ++ [chr '"'])

theorem over_attr {a : Bytes × Bytes} (hblank : step m (chr ' ') = some (.between name attrs, []))
    (ha : IsName a.1) : Over m (attrText a) [] (.between name (attrs ++ [a])) := by
  obtain ⟨key, v⟩ := a
  obtain ⟨hne, hall⟩ := ha
  cases key with
  | nil => exact absurd rfl hne
  | cons c key =>
      rw [List.forall_mem_cons] at hall
      have hbyte := ne_of_isNameByte hall.1
      have hfirst : Over (.between name attrs) [c] [] (.key name attrs [c]) := by
        refine over_byte ?_
        rw [step, if_neg hbyte.2.1, if_neg (by rw [hbyte.2.2.2]; decide), if_pos hall.1]
      have hkey : Over (.key name attrs [c]) key [] (.key name attrs ([c] ++ key)) := by
        refine over_collect (Mode.key name attrs) (fun raw c hc => ?_) hall.2 [c]
        rw [step, if_neg (ne_of_isNameByte hc).2.2.1, if_pos hc]
      have hequals : Over (.key name attrs ([c] ++ key)) (str "=\"") []
          (.value name attrs ([c] ++ key) (chr '"') []) := by
        have hsign : Over (.key name attrs ([c] ++ key)) [chr '='] [] (.equals name attrs ([c] ++ key)) :=
          over_byte rfl
        have hquote : Over (.equals name attrs ([c] ++ key)) [chr '"'] []
            (.value name attrs ([c] ++ key) (chr '"') []) := over_byte rfl
        exact hsign.append hquote
      have hvalue : Over (.value name attrs ([c] ++ key) (chr '"') []) (escape v) []
          (.value name attrs ([c] ++ key) (chr '"') (escape v)) := by
        refine over_collect (Mode.value name attrs ([c] ++ key) (chr '"'))
          (p := fun c => c ≠ chr '"' ∧ c ≠ chr '<') (fun raw c hc => ?_) (fun c hc => ⟨?_, ?_⟩) []
        · rw [step, if_neg hc.1, if_neg hc.2]
        · exact fun hquote => quote_notMem_escape v (hquote ▸ hc)
        · exact fun hlt => lt_notMem_escape v (hlt ▸ hc)
      have hclose : Over (.value name attrs ([c] ++ key) (chr '"') (escape v)) [chr '"'] []
          (.between name (attrs ++ [([c] ++ key, v)])) :=
        over_byte (by rw [step, if_pos rfl, unescape_escape]; rfl)
      have hall := ((over_byte hblank).append hfirst).append
        (hkey.append (hequals.append (hvalue.append hclose)))
      simpa [attrText] using hall

theorem over_attrs {as : Attrs} (has : ∀ a ∈ as, IsName a.1) (attrs : Attrs) :
    Over (.between name attrs) (as.flatMap attrText) [] (.between name (attrs ++ as)) := by
  induction as generalizing attrs with
  | nil => simpa using over_nil (.between name attrs)
  | cons a as ih =>
      rw [List.forall_mem_cons] at has
      have hrest := ih has.2 (attrs ++ [a])
      rw [List.append_assoc, List.singleton_append] at hrest
      exact (over_attr rfl has.1).append hrest

/-- An opening tag behind its bracket. -/
theorem over_opening (hname : IsName name) (hattrs : ∀ a ∈ attrs, IsName a.1) :
    Over .bracket (name ++ (attrs.flatMap attrText ++ [chr '>'])) [.opening name attrs] (.text []) := by
  have htag := over_name hname
  cases attrs with
  | nil => exact htag.append (over_byte rfl)
  | cons a as =>
      rw [List.forall_mem_cons] at hattrs
      have hfirst : Over (.name name) (attrText a) [] (.between name ([] ++ [a])) := over_attr rfl hattrs.1
      have hend : Over (.between name (a :: as)) [chr '>'] [.opening name (a :: as)] (.text []) :=
        over_byte rfl
      exact htag.append ((hfirst.append (over_attrs hattrs.2 [a])).append hend)

end

/-! ### Trees -/

/-- The text of an element is all of its own text, in front of its children. -/
structure Node where
  name : Bytes
  attrs : Attrs
  text : Bytes
  children : List Node

namespace Node

def addText (n : Node) (t : Bytes) : Node := { n with text := n.text ++ t }

def addChild (n child : Node) : Node := { n with children := n.children ++ [child] }

def child (n : Node) (name : Bytes) : Option Node := n.children.find? (·.name = name)

def attr (n : Node) (key : Bytes) : Option Bytes := (n.attrs.find? (·.1 = key)).map Prod.snd

end Node

/-- The open elements, the innermost first; at the end only the one around the document is open. -/
def build : List Node → List Token → Option Node
  | [root], [] => some root
  | _, [] => none
  | f :: stack, .text t :: ts => build (f.addText t :: stack) ts
  | stack, .opening name attrs :: ts => build (⟨name, attrs, [], []⟩ :: stack) ts
  | f :: g :: stack, .closing name :: ts =>
      if f.name = name then build (g.addChild f :: stack) ts else none
  | _, _ => none

/-- The one element of a document. -/
def parse (s : Bytes) : Option Node :=
  match (scan (.text []) s).bind (build [⟨[], [], [], []⟩]) with
  | some ⟨_, _, text, [n]⟩ => if text.all isBlank then some n else none
  | _ => none

mutual

def render : Node → Bytes
  | ⟨name, attrs, text, children⟩ =>
      chr '<' :: (name ++ (attrs.flatMap attrText ++ [chr '>']) ++ escape text ++ renderAll children ++
        chr '<' :: chr '/' :: (name ++ [chr '>']))

def renderAll : List Node → Bytes
  | [] => []
  | n :: ns => render n ++ renderAll ns

end

mutual

/-- The names in a tree are names. -/
def Named : Node → Prop
  | ⟨name, attrs, _, children⟩ => IsName name ∧ (∀ a ∈ attrs, IsName a.1) ∧ AllNamed children

def AllNamed : List Node → Prop
  | [] => True
  | n :: ns => Named n ∧ AllNamed ns

end

mutual

/-- The tokens of an element, behind a text that is not given out yet. -/
def tokens (t : Bytes) : Node → List Token
  | ⟨name, attrs, text, children⟩ =>
      .text t :: .opening name attrs :: (childTokens text children ++ [.closing name])

def childTokens (t : Bytes) : List Node → List Token
  | [] => [.text t]
  | n :: ns => tokens t n ++ childTokens [] ns

end

mutual

theorem over_render : ∀ (n : Node) {raw t : Bytes}, Named n → unescape raw = some t →
    Over (.text raw) (render n) (tokens t n) (.text [])
  | ⟨name, attrs, text, children⟩, raw, t, hn, ht => by
      obtain ⟨hname, hattrs, hchildren⟩ := hn
      have hopen := (over_bracket ht).append (over_opening hname hattrs)
      have htext := hopen.append (over_text (lt_notMem_escape text) [])
      have hinside := htext.append (over_renderAll children hchildren (unescape_escape text))
      have hall := hinside.append (over_closing hname)
      simpa [render, tokens] using hall

/-- The children of an element and the bracket behind them. -/
theorem over_renderAll : ∀ (ns : List Node) {raw t : Bytes}, AllNamed ns → unescape raw = some t →
    Over (.text raw) (renderAll ns ++ [chr '<']) (childTokens t ns) .bracket
  | [], _, _, _, ht => over_bracket ht
  | n :: ns, _, _, hns, ht => by
      have hrest := (over_render n hns.1 ht).append (over_renderAll ns hns.2 rfl)
      rwa [← List.append_assoc] at hrest

end

mutual

/-- The tokens of an element add it to the innermost open one. -/
theorem build_tokens : ∀ (n : Node) (t : Bytes) (f : Node) (stack : List Node) (ts : List Token),
    build (f :: stack) (tokens t n ++ ts) = build ((f.addText t).addChild n :: stack) ts
  | ⟨name, attrs, text, children⟩, t, f, stack, ts => by
      have hchildren := build_childTokens children text ⟨name, attrs, [], []⟩ (f.addText t :: stack)
        (.closing name :: ts)
      rw [tokens, List.cons_append, List.cons_append, List.append_assoc, build, build, List.singleton_append,
        hchildren, build, if_pos rfl]
      rfl

theorem build_childTokens : ∀ (ns : List Node) (t : Bytes) (f : Node) (stack : List Node)
    (ts : List Token), build (f :: stack) (childTokens t ns ++ ts) =
      build ({ f with text := f.text ++ t, children := f.children ++ ns } :: stack) ts
  | [], t, f, stack, ts => by
      rw [childTokens, List.singleton_append, build, List.append_nil]
      rfl
  | n :: ns, t, f, stack, ts => by
      have hrest := build_childTokens ns [] ((f.addText t).addChild n) stack ts
      rw [childTokens, List.append_assoc, build_tokens, hrest]
      simp [Node.addText, Node.addChild]

end

theorem renderAll_eq_flatMap (ns : List Node) : renderAll ns = ns.flatMap render := by
  induction ns with
  | nil => rfl
  | cons n ns ih => rw [renderAll, ih, List.flatMap_cons]

theorem allNamed_iff (ns : List Node) : AllNamed ns ↔ ∀ n ∈ ns, Named n := by
  induction ns with
  | nil => exact iff_of_true trivial fun n hn => by cases hn
  | cons n ns ih => rw [AllNamed, ih, List.forall_mem_cons]

/-- A document that is written is read. -/
theorem parse_render {n : Node} (hn : Named n) : parse (render n) = some n := by
  have hscan := over_render n hn (rfl : unescape [] = some []) []
  have hend : scan (.text []) [] = some [.text []] := rfl
  rw [List.append_nil, hend, Option.map_some] at hscan
  have hbuild := build_tokens n [] ⟨[], [], [], []⟩ [] [.text []]
  rw [parse, hscan, Option.bind_some, hbuild]
  rfl

end Xml
