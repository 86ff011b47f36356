import BypassCore.Lib.Except
import BypassCore.Runtime.ConfigFile.Load

/-!
# What the two loaders accept

The walk over the tokens of a document succeeds if and only if no object has a key twice. This is
all that the daemon asks of a configuration beyond what the installer does.
-/

namespace BypassCore.ConfigFile

open Lib Lib.JSON List Decoder Option

def IsDuplicate (e : Failure) : Prop := ∃ text, e = .message ("duplicate JSON key at " ++ text)

section Steps

variable {walk : String → Decoder → Except Failure Decoder} {path : String} {n index : ℕ}
  {seen : List Key} {D D' : Decoder} {key : Key}

lemma walkObject_key (hmore : D.more = true) (htoken : D.token = .ok (.string key, D')) :
    walkObject walk path (n + 1) seen D =
      if key ∈ seen then
        .error (.message ("duplicate JSON key at " ++ path ++ "." ++ String.ofList key))
      else walk (path ++ "." ++ String.ofList key) D' >>= walkObject walk path n (key :: seen) := by
  rw [walkObject, if_pos hmore, htoken]
  rfl

lemma walkObject_close (hmore : D.more = false) (htoken : D.token = .ok (.endObject, D')) :
    walkObject walk path (n + 1) seen D = .ok D' := by
  rw [walkObject, if_neg (Bool.not_eq_true _ ▸ hmore), htoken]
  rfl

lemma walkArray_item (hmore : D.more = true) :
    walkArray walk path (n + 1) index D =
      walk (path ++ "[" ++ toString index ++ "]") D >>= walkArray walk path n (index + 1) := by
  rw [walkArray, if_pos hmore]

lemma walkArray_close (hmore : D.more = false) (htoken : D.token = .ok (.endArray, D')) :
    walkArray walk path (n + 1) index D = .ok D' := by
  rw [walkArray, if_neg (Bool.not_eq_true _ ▸ hmore), htoken]
  rfl

end Steps

/-! ### The walk on a value -/

/-- A walk over values of at most some length succeeds if and only if no object has a key twice, and
goes past the value. -/
def Walks (walk : String → Decoder → Except Failure Decoder) (item : Text → Option (Doc × Text))
    (bound : ℕ) : Prop :=
  ∀ {path D D' d r}, D.separated = .ok D' → D'.state.valueAllowed = true →
    item (skipSpace D'.rest) = some (d, r) → D'.rest.length ≤ bound →
      Decides (walk path D) ⟨r, D'.state.valueEnd, D'.stack⟩ d.Distinct IsDuplicate

/-- No key comes twice among the members, or has been seen before, or comes twice inside one. -/
structure Fresh (seen : List Key) (members : List (Key × Doc)) : Prop where
  unseen : ∀ m ∈ members, m.1 ∉ seen
  nodup : (members.map Prod.fst).Nodup
  distinct : ∀ m ∈ members, m.2.Distinct

lemma fresh_nil (seen : List Key) : Fresh seen [] :=
  ⟨forall_mem_nil _, nodup_nil, forall_mem_nil _⟩

lemma fresh_cons {seen : List Key} {m : Key × Doc} {members : List (Key × Doc)} :
    Fresh seen (m :: members) ↔ m.1 ∉ seen ∧ m.2.Distinct ∧ Fresh (m.1 :: seen) members := by
  constructor
  · rintro ⟨hunseen, hnodup, hdistinct⟩
    obtain ⟨hm, hunseen⟩ := forall_mem_cons.mp hunseen
    obtain ⟨hd, hdistinct⟩ := forall_mem_cons.mp hdistinct
    obtain ⟨hkey, hnodup⟩ := nodup_cons.mp hnodup
    refine ⟨hm, hd, ?_, hnodup, hdistinct⟩
    intro m' hm' hmem
    rcases mem_cons.mp hmem with heq | hseen
    · exact hkey (heq ▸ mem_map_of_mem hm')
    · exact hunseen m' hm' hseen
  · rintro ⟨hm, hd, hunseen, hnodup, hdistinct⟩
    refine ⟨?_, ?_, forall_mem_cons.mpr ⟨hd, hdistinct⟩⟩
    · exact forall_mem_cons.mpr ⟨hm, fun m' hm' hseen => hunseen m' hm' (mem_cons_of_mem _ hseen)⟩
    · refine nodup_cons.mpr ⟨?_, hnodup⟩
      intro hmem
      obtain ⟨m', hm', heq⟩ := mem_map.mp hmem
      exact hunseen m' hm' (heq ▸ mem_cons_self)

/-- An item or a member may stand after an opening bracket. -/
lemma first_item {state : TokenState} {stack : List TokenState} {b : UInt8} {t t' : Text}
    (ht : skipSpace t = b :: t') (hb : isDelimiter b = false) :
    (⟨t, state, stack⟩ : Decoder).more = true ∧
      (⟨t, state, stack⟩ : Decoder).separated = .ok ⟨t, state, stack⟩ := by
  simp only [isDelimiter, Bool.or_eq_false_iff, beq_eq_false_iff_ne] at hb
  obtain ⟨⟨⟨⟨-, hcomma⟩, hcolon⟩, harr⟩, hobj⟩ := hb
  refine ⟨?_, separated_eq ht hcolon hcomma⟩
  rw [more_eq ht, bne_iff_ne.mpr harr, bne_iff_ne.mpr hobj]
  rfl

section Loops

variable {α σ : Type} {loop : ℕ → σ → Decoder → Except Failure Decoder}
  {item : Text → Option (α × Text)} {close : UInt8} {start next comma : TokenState} {bound : ℕ}
  {Good : σ → List α → Prop} {D D' : Decoder} {s rest : Text} {state : TokenState}
  {stack : List TokenState} {l : List α}

/-- A loop over what stands between brackets. What it has met, `x`, may make it refuse an item. -/
structure Loops (loop : ℕ → σ → Decoder → Except Failure Decoder)
    (item : Text → Option (α × Text)) (close : UInt8) (start next comma : TokenState) (bound : ℕ)
    (Good : σ → List α → Prop) : Prop where
  consumes : Consumes item
  head : ∀ {s a r}, item s = some (a, r) → ∃ b t, s = b :: t ∧ isDelimiter b = false
  separated : ∀ {r s stack}, skipSpace r = 0x2c :: s →
    (⟨r, comma, stack⟩ : Decoder).separated = .ok ⟨s, next, stack⟩
  closed : ∀ {n x r rest at' state stack}, skipSpace r = close :: rest → at' = start ∨ at' = comma →
    Decides (loop (n + 1) x ⟨r, at', state :: stack⟩) ⟨rest, state.valueEnd, stack⟩ (Good x [])
      IsDuplicate
  stepped : ∀ {n x a l r D D' D₂}, item (skipSpace D'.rest) = some (a, r) → D'.rest.length ≤ bound →
    D.more = true → D.separated = .ok D' → D'.state = start ∨ D'.state = next →
      (∀ x, Decides (loop n x ⟨r, comma, D'.stack⟩) D₂ (Good x l) IsDuplicate) →
        Decides (loop (n + 1) x D) D₂ (Good x (a :: l)) IsDuplicate

variable (h : Loops loop item close start next comma bound Good)
include h

lemma Loops.items {fuel : ℕ} (hitems : Items item close s l rest) (hbound : s.length ≤ bound)
    (hfuel : s.length < fuel) (hmore : D.more = true) (hsep : D.separated = .ok D')
    (hrest : D'.rest = s) (hstate : D'.state = start ∨ D'.state = next)
    (hstack : D'.stack = state :: stack) (x : σ) :
    Decides (loop fuel x D) ⟨rest, state.valueEnd, stack⟩ (Good x l) IsDuplicate := by
  induction hitems generalizing D D' fuel x with
  | last hr hclose =>
    have hs := length_after h.consumes hr hclose
    obtain ⟨n, rfl⟩ : ∃ n, fuel = n + 2 := ⟨fuel - 2, by omega⟩
    subst hrest
    refine h.stepped hr hbound hmore hsep hstate fun x' => ?_
    rw [hstack]
    exact h.closed hclose (.inr rfl)
  | cons hr hcomma _ ih =>
    have hs := length_after h.consumes hr hcomma
    obtain ⟨n, rfl⟩ : ∃ n, fuel = n + 1 := ⟨fuel - 1, by omega⟩
    subst hrest
    exact h.stepped hr hbound hmore hsep hstate fun x' => ih (by omega) (by omega)
      ((more_eq hcomma).trans rfl) (h.separated hcomma) rfl (.inr rfl) hstack x'

/-- From the opening bracket. -/
theorem Loops.bracketed (hl : bracketed item close s = some (l, rest)) (hbound : s.length ≤ bound)
    (x : σ) :
    Decides (loop (s.length + 1) x ⟨s, start, state :: stack⟩) ⟨rest, state.valueEnd, stack⟩
      (Good x l) IsDuplicate := by
  rcases bracketed_eq_some hl with ⟨hclose, rfl⟩ | hitems
  · exact h.closed hclose (.inl rfl)
  · obtain ⟨a, r, ha⟩ := hitems.exists_first
    obtain ⟨b, t, ht, hb⟩ := h.head ha
    obtain ⟨hmore, hsep⟩ := first_item ht hb
    exact h.items hitems hbound (Nat.lt_succ_self _) hmore hsep rfl (.inl rfl) rfl x

end Loops

section Values

variable {walk : String → Decoder → Except Failure Decoder} {depth bound : ℕ}
  (hwalk : Walks walk (value depth) bound) (path : String)
include hwalk

lemma loops_walkArray : Loops (walkArray walk path) (value depth) 0x5d .arrayStart .arrayValue
    .arrayComma bound fun _ l => ∀ d ∈ l, d.Distinct where
  consumes := consumes_value depth
  head := value_head
  separated := fun hcomma => (separated_comma hcomma).1 rfl
  closed := by
    intro n index r rest at' state stack hclose hat
    refine (Decides.of_ok (walkArray_close ?_ (token_endArray hclose hat rfl))).congr
      (iff_of_true trivial (forall_mem_nil _))
    exact (more_eq hclose).trans rfl
  stepped := by
    intro n index d l r D D' D₂ hd hbound hmore hsep hstate hnext
    obtain ⟨hallowed, hend⟩ : D'.state.valueAllowed = true ∧ D'.state.valueEnd = .arrayComma := by
      rcases hstate with hstate | hstate <;> exact hstate ▸ ⟨rfl, rfl⟩
    have hvalue := @hwalk (path ++ "[" ++ toString index ++ "]") D D' d r hsep hallowed hd hbound
    rw [hend] at hvalue
    rw [walkArray_item hmore, forall_mem_cons]
    exact hvalue.bind (hnext _)

lemma loops_walkObject : Loops (walkObject walk path) (member (value depth)) 0x7d .objectStart
    .objectKey .objectComma bound Fresh where
  consumes := (consumes_value depth).member
  head := by
    intro s a r ha
    obtain ⟨t, -, -, -, ht, -⟩ := member_eq_some ha
    exact ⟨0x22, t, ht, rfl⟩
  separated := fun hcomma => (separated_comma hcomma).2 rfl
  closed := by
    intro n seen r rest at' state stack hclose hat
    refine (Decides.of_ok (walkObject_close ?_ (token_endObject hclose hat rfl))).congr
      (iff_of_true trivial (fresh_nil _))
    exact (more_eq hclose).trans rfl
  stepped := by
    intro n seen m l r D D' D₂ hr hbound hmore hsep hstate hnext
    obtain ⟨t, body, r', s', ht, hbody, hr', hd, hkey⟩ := member_eq_some hr
    have htoken := (D.token_eq hsep).trans (D'.tokenAt_key ht hstate hbody)
    have hs' : s'.length ≤ bound := by
      have hlt := length_scanString hbody
      have hle := length_skipSpace_le r'
      have hle' := length_skipSpace_le D'.rest
      rw [hr', length_cons] at hle
      rw [ht, length_cons] at hle'
      omega
    let D₁ : Decoder := ⟨r', .objectColon, D'.stack⟩
    have hvalue := @hwalk (path ++ "." ++ String.ofList (unquote body)) D₁ _ m.2 r
      (D₁.separated_colon hr' rfl) rfl hd hs'
    rw [fresh_cons, ← hkey, walkObject_key hmore htoken]
    by_cases hseen : unquote body ∈ seen
    · rw [if_pos hseen]
      have hduplicate : IsDuplicate
          (.message ("duplicate JSON key at " ++ path ++ "." ++ String.ofList (unquote body))) :=
        ⟨path ++ "." ++ String.ofList (unquote body), by simp only [String.append_assoc]⟩
      exact ⟨fun h => absurd hseen h.1, fun _ => ⟨_, hduplicate, rfl⟩⟩
    · rw [if_neg hseen]
      refine (hvalue.bind (hnext _)).congr ?_
      rw [and_iff_right hseen]

end Values

lemma distinct_of_scalar {s rest : Text} {d : Doc} (h : scalar s = some (d, rest)) :
    d.Distinct := by
  unfold scalar at h
  split at h
  · cases h
  · split_ifs at h
    · obtain ⟨r, -, h⟩ := map_eq_some_iff.mp h
      cases h
      exact .str _
    · obtain ⟨-, rfl, -⟩ := literal_eq_some h
      exact .null
    · obtain ⟨-, rfl, -⟩ := literal_eq_some h
      exact .bool _
    · obtain ⟨-, rfl, -⟩ := literal_eq_some h
      exact .bool _
    · obtain ⟨r, -, h⟩ := map_eq_some_iff.mp h
      cases h
      exact .num _

section Value

variable {n : ℕ} {path : String} {D D' : Decoder} {t r : Text}

section Separated

variable (hsep : D.separated = .ok D') (hallowed : D'.state.valueAllowed = true)
include hsep hallowed

lemma walk_scalar {d : Doc} (h : scalar (skipSpace D'.rest) = some (d, r)) :
    walk (n + 1) path D = .ok ⟨r, D'.state.valueEnd, D'.stack⟩ := by
  obtain ⟨token, htoken, hat⟩ := D'.tokenAt_scalar h hallowed
  rw [walk, D.token_eq hsep, hat]
  cases d <;> cases htoken <;> rfl

lemma walk_beginArray (hs : skipSpace D'.rest = 0x5b :: t) :
    walk (n + 1) path D =
      walkArray (walk n) path (t.length + 1) 0 ⟨t, .arrayStart, D'.state :: D'.stack⟩ := by
  rw [walk, D.token_eq hsep, D'.tokenAt_beginArray hs hallowed]
  rfl

lemma walk_beginObject (hs : skipSpace D'.rest = 0x7b :: t) :
    walk (n + 1) path D =
      walkObject (walk n) path (t.length + 1) [] ⟨t, .objectStart, D'.state :: D'.stack⟩ := by
  rw [walk, D.token_eq hsep, D'.tokenAt_beginObject hs hallowed]
  rfl

end Separated

end Value

/-- The walk over a value. -/
theorem walks_value (depth n : ℕ) : Walks (walk (n + 1)) (value depth) n := by
  induction depth generalizing n with
  | zero =>
    intro path D D' d r hsep hallowed hd hbound
    exact (Decides.of_ok (walk_scalar hsep hallowed hd)).congr
      (iff_of_true trivial (distinct_of_scalar hd))
  | succ depth ih =>
    intro path D D' d r hsep hallowed hd hbound
    have hle := length_skipSpace_le D'.rest
    rcases value_eq_some hd with hscalar | ⟨_, t, inner, l, hdepth, hs, rfl, hl⟩ |
      ⟨_, t, inner, l, hdepth, hs, rfl, hl⟩
    · exact (Decides.of_ok (walk_scalar hsep hallowed hscalar)).congr
        (iff_of_true trivial (distinct_of_scalar hscalar))
    · cases hdepth
      rw [hs, length_cons] at hle
      obtain ⟨k, rfl⟩ : ∃ k, n = k + 1 := ⟨n - 1, by omega⟩
      rw [walk_beginArray hsep hallowed hs, distinct_arr]
      exact (loops_walkArray (ih k) path).bracketed hl (by omega) 0
    · cases hdepth
      rw [hs, length_cons] at hle
      obtain ⟨k, rfl⟩ : ∃ k, n = k + 1 := ⟨n - 1, by omega⟩
      rw [walk_beginObject hsep hallowed hs, distinct_obj]
      refine ((loops_walkObject (ih k) path).bracketed hl (by omega) []).congr ?_
      exact ⟨fun h => ⟨h.nodup, h.distinct⟩, fun h => ⟨fun _ _ => not_mem_nil, h.1, h.2⟩⟩

/-- The check for keys that come twice, on one value. -/
theorem rejectDuplicateJSONKeys_spec {raw rest : Text} {d : Doc}
    (h : value maxNestingDepth (skipSpace raw) = some (d, rest)) (hrest : skipSpace rest = []) :
    Decides (rejectDuplicateJSONKeys raw) () d.Distinct IsDuplicate := by
  obtain ⟨b, t, ht, hb⟩ := value_head h
  obtain ⟨-, hsep⟩ := @first_item .topValue [] b raw t ht hb
  have hwalk := @walks_value maxNestingDepth raw.length "$" _ _ d rest hsep rfl h le_rfl
  refine (hwalk.bind (.of_ok ?_)).congr (iff_of_eq (and_true _))
  rw [token_eof hrest]

/-! ### The loaders -/

variable {F H : Type} {P : Parsers F} {sum : List Char → H}

def document (s : Text) : Option Doc := (value maxNestingDepth (skipSpace s)).map Prod.fst

/-- A document that is one value with nothing after it, and decodes to a configuration. -/
structure Loads (P : Parsers F) (content : Text) (d : Doc) (cfg : Value (Scalar F)) : Prop where
  whole : ∃ rest, value maxNestingDepth (skipSpace content) = some (d, rest) ∧ skipSpace rest = []
  decoded : configOf P d = some cfg

section Content

variable {content : Text} {d : Doc} {cfg : Value (Scalar F)}

lemma Loads.document_eq (h : Loads P content d cfg) : document content = some d := by
  obtain ⟨rest, hvalue, -⟩ := h.whole
  rw [document, hvalue]
  rfl

/-- Both loaders decode one value, and see that nothing comes after it. -/
lemma exists_loads {decoder : Decoder}
    (hdecode : (new content).decode (configOf P) = .ok (cfg, decoder))
    (heof : decoder.decode (anyOf P) = .error .eof) : ∃ d, Loads P content d cfg := by
  obtain ⟨d, rest, hvalue, hconfig, rfl⟩ := decode_eq_ok.mp hdecode
  exact ⟨d, ⟨rest, hvalue, decode_eq_eof.mp heof⟩, hconfig⟩

lemma exists_loads_of_loadConfig (h : loadConfig P content = .ok cfg) :
    ∃ d, Loads P content d cfg := by
  obtain ⟨⟨cfg', decoder⟩, hdecode, h⟩ := bind_eq_ok.mp h
  dsimp only at h
  split at h <;> cases h
  · next heof =>
    exact exists_loads (mapError_eq_ok.mp hdecode) heof

lemma Loads.decodeConfig (h : Loads P content d cfg) :
    Decides (decodeConfig P sum content) (cfg, sum d.generic.marshal) d.Distinct
      fun e => ∃ e', IsDuplicate e' ∧ e = .base "parse config.json" e' := by
  obtain ⟨rest, hvalue, hrest⟩ := h.whole
  have hdecode : (new content).decode (configOf P) = .ok (cfg, ⟨rest, .topValue, []⟩) :=
    decode_eq_ok.mpr ⟨d, rest, hvalue, h.decoded, rfl⟩
  have heof : (⟨rest, .topValue, []⟩ : Decoder).decode (anyOf P) = .error .eof :=
    decode_eq_eof.mpr hrest
  have hcanonical : (new content).decode (fun d => some d.generic) =
      .ok (d.generic, ⟨rest, .topValue, []⟩) :=
    decode_eq_ok.mpr ⟨d, rest, hvalue, rfl, rfl⟩
  refine ((rejectDuplicateJSONKeys_spec hvalue hrest).mapError.bind (.of_ok ?_)).congr
    (iff_of_eq (and_true _))
  rw [hdecode]
  dsimp only [Except.mapError, bind, Except.bind]
  rw [heof]
  rw [hcanonical]

lemma exists_loads_of_decodeConfig {hash : H}
    (h : ConfigFile.decodeConfig P sum content = .ok (cfg, hash)) :
    ∃ d, Loads P content d cfg ∧ d.Distinct ∧ hash = sum d.generic.marshal := by
  obtain ⟨d, hd⟩ : ∃ d, Loads P content d cfg := by
    obtain ⟨-, -, h⟩ := bind_eq_ok.mp h
    obtain ⟨⟨cfg', decoder⟩, hdecode, h⟩ := bind_eq_ok.mp h
    dsimp only at h
    split at h
    · next heof =>
      obtain ⟨⟨canonical, _⟩, -, h⟩ := bind_eq_ok.mp h
      cases h
      exact exists_loads (mapError_eq_ok.mp hdecode) heof
    · cases h
    · cases h
  obtain ⟨hdistinct, heq⟩ := hd.decodeConfig.of_eq_ok h
  exact ⟨d, hd, hdistinct, (Prod.mk.inj heq).2⟩

lemma loadConfigAndHash_eq (hsize : content.length ≤ maxConfigBytes) :
    loadConfigAndHash P sum content = ConfigFile.decodeConfig P sum content := by
  have htake : content.take (maxConfigBytes + 1) = content :=
    take_of_length_le (Nat.le_succ_of_le hsize)
  rw [loadConfigAndHash, htake]
  exact if_neg (Nat.not_lt.mpr hsize)

/-- What the installer accepts, the daemon loads as the same configuration if and only if no object
has a key twice; otherwise it refuses the key. -/
theorem loadConfigAndHash_of_loadConfig (hsize : content.length ≤ maxConfigBytes)
    (hload : loadConfig P content = .ok cfg) :
    ((∃ hash, loadConfigAndHash P sum content = .ok (cfg, hash)) ↔
        ∀ d, document content = some d → d.Distinct) ∧
      (¬ (∀ d, document content = some d → d.Distinct) →
        ∃ text, loadConfigAndHash P sum content =
          .error (.base "parse config.json" (.message ("duplicate JSON key at " ++ text)))) := by
  obtain ⟨d, hd⟩ := exists_loads_of_loadConfig hload
  have hdistinct : (∀ d', document content = some d' → d'.Distinct) ↔ d.Distinct := by
    rw [hd.document_eq]
    exact ⟨fun h => h d rfl, fun h d' heq => some.inj heq ▸ h⟩
  have hdecides : Decides (ConfigFile.decodeConfig P sum content) _ _ _ := hd.decodeConfig
  rw [loadConfigAndHash_eq hsize, hdistinct]
  refine ⟨⟨?_, fun h => ⟨_, hdecides.ok h⟩⟩, ?_⟩
  · rintro ⟨hash, h⟩
    exact (hdecides.of_eq_ok h).1
  · intro h
    obtain ⟨_, ⟨_, ⟨text, rfl⟩, rfl⟩, herror⟩ := hdecides.error h
    exact ⟨text, herror⟩

end Content

/-! #### A key that comes twice -/

def failure {α : Type} : Except Failure α → Option Failure
  | .ok _ => none
  | .error e => some e

lemma exists_ok {α : Type} {x : Except Failure α} (h : failure x = none) : ∃ a, x = .ok a := by
  cases x with
  | ok a => exact ⟨a, rfl⟩
  | error e => cases h

lemma eq_error {α : Type} {x : Except Failure α} {e : Failure} (h : failure x = some e) :
    x = .error e := by
  cases x with
  | ok a => cases h
  | error e' => rw [some.inj h]

def noParsers : Parsers Unit := ⟨fun _ => none, fun _ => none, fun _ => none⟩

def duplicated : Text := ascii "\x7b\"metrics\":\x7b\x7d,\"metrics\":\x7b\x7d\x7d"

/-- The installer accepts a key that comes twice, and the daemon does not. -/
theorem duplicated_refused :
    duplicated.length ≤ maxConfigBytes ∧ (∃ cfg, loadConfig noParsers duplicated = .ok cfg) ∧
      loadConfigAndHash noParsers id duplicated =
        .error (.base "parse config.json" (.message "duplicate JSON key at $.metrics")) := by
  refine ⟨by decide +kernel, exists_ok (by decide +kernel), eq_error (by decide +kernel)⟩

def routing (inner items : Text) : Key × Doc :=
  ("routing".toList, .obj inner [("rules".toList, .arr items [.str (ascii "a")])])

def noMetrics (inner : Text) : Key × Doc := ("metrics".toList, .obj inner [])

def nested : Text := ascii "\x7b\"routing\":\x7b\"rules\":[\"a\"]\x7d,\"metrics\":\x7b\x7d\x7d"

lemma document_nested : ∃ outer inner items empty,
    document nested = some (.obj outer [routing inner items, noMetrics empty]) :=
  ⟨_, _, _, _, rfl⟩

/-- A document without such a key. -/
theorem loadConfigAndHash_of_loadConfig_nested : nested.length ≤ maxConfigBytes ∧
    ∃ cfg, loadConfig noParsers nested = .ok cfg ∧
      ∃ hash, loadConfigAndHash noParsers id nested = .ok (cfg, hash) := by
  have hsize : nested.length ≤ maxConfigBytes := by decide +kernel
  obtain ⟨cfg, hload⟩ : ∃ cfg, loadConfig noParsers nested = .ok cfg :=
    exists_ok (by decide +kernel)
  refine ⟨hsize, cfg, hload, (loadConfigAndHash_of_loadConfig hsize hload).1.mpr ?_⟩
  obtain ⟨outer, inner, items, empty, hdoc⟩ := document_nested
  rintro d ⟨⟩
  have hsections : ["routing".toList, "metrics".toList].Nodup := by decide
  refine .obj hsections (forall_mem_cons.mpr ⟨?_, forall_mem_singleton.mpr ?_⟩)
  · exact .obj (nodup_singleton _)
      (forall_mem_singleton.mpr (.arr (forall_mem_singleton.mpr (.str _))))
  · exact .obj nodup_nil (forall_mem_nil _)

/-!
## What the hash says of a configuration

The hash is taken of the document decoded into a value of any type and encoded again, where the keys
of an object are told apart by their text. The configuration is decoded from the same document, but
there two keys that differ in case only set one field, the later one last. So the hash does not say
which of them comes last.
-/

def canonical (raw : Text) : Option (List Char) :=
  (document raw).map fun d => d.generic.marshal

/-- No object of the document has two keys that set one field of the configuration. -/
def SetsOnce (P : Parsers F) (raw : Text) : Prop :=
  ∀ d, document raw = some d → (config P).SetsOnce d

/-- The parts of the configuration that are kept as they are written (the rules of the router, and
the settings of a strategy) are written the same. -/
def SameRaw (P : Parsers F) (raw raw' : Text) : Prop :=
  ∀ d d', document raw = some d → document raw' = some d' → (config P).SameRaw d d'

section

variable {raw raw' : Text} {d d' : Doc} {cfg cfg' : Value (Scalar F)} {hash hash' : H}

lemma Loads.setsOnce_iff (h : Loads P raw d cfg) : SetsOnce P raw ↔ (config P).SetsOnce d := by
  rw [SetsOnce, h.document_eq]
  exact ⟨fun h => h d rfl, fun h d' heq => some.inj heq ▸ h⟩

lemma Loads.sameRaw_iff (h : Loads P raw d cfg) (h' : Loads P raw' d' cfg') :
    SameRaw P raw raw' ↔ (config P).SameRaw d d' := by
  rw [SameRaw, h.document_eq, h'.document_eq]
  constructor
  · exact fun h => h d d' rfl rfl
  · rintro h _ _ ⟨⟩ ⟨⟩
    exact h

lemma Loads.generic_eq (h : Loads P raw d cfg) (h' : Loads P raw' d' cfg')
    (heq : canonical raw = canonical raw') : d.generic = d'.generic := by
  rw [canonical, canonical, h.document_eq, h'.document_eq] at heq
  exact marshal_injective (some.inj heq)

lemma canonical_of_decodeConfig {text : List Char} (h : decodeConfig P id raw = .ok (cfg, text)) :
    canonical raw = some text := by
  obtain ⟨d, hd, -, rfl⟩ := exists_loads_of_decodeConfig h
  rw [canonical, hd.document_eq]
  rfl

/-- For two documents that the daemon accepts with one encoding, the configurations are equal and
each sets its fields once if and only if the fields are set once and the raw parts are the same. -/
theorem decodeConfig_determined (h : decodeConfig P sum raw = .ok (cfg, hash))
    (h' : decodeConfig P sum raw' = .ok (cfg', hash')) (heq : canonical raw = canonical raw') :
    hash = hash' ∧ ((cfg = cfg' ∧ SetsOnce P raw ∧ SetsOnce P raw') ↔
      (SetsOnce P raw ∧ SetsOnce P raw' ∧ SameRaw P raw raw')) := by
  obtain ⟨d, hd, hdistinct, rfl⟩ := exists_loads_of_decodeConfig h
  obtain ⟨d', hd', hdistinct', rfl⟩ := exists_loads_of_decodeConfig h'
  have hgeneric := hd.generic_eq hd' heq
  refine ⟨by rw [hgeneric], ?_⟩
  rw [hd.setsOnce_iff, hd'.setsOnce_iff, hd.sameRaw_iff hd']
  have hdetermined (honce : (config P).SetsOnce d) (honce' : (config P).SetsOnce d') :
      cfg = cfg' ↔ (config P).SameRaw d d' :=
    (config P).determined d d' cfg cfg'
      ⟨hd.decoded, hd'.decoded, hgeneric, hdistinct, hdistinct', honce, honce'⟩
  constructor
  · rintro ⟨hcfg, honce, honce'⟩
    exact ⟨honce, honce', (hdetermined honce honce').mp hcfg⟩
  · rintro ⟨honce, honce', hraw⟩
    exact ⟨(hdetermined honce honce').mpr hraw, honce, honce'⟩

end

/-! #### Two keys for one field -/

section

variable {members members' : List (Key × Doc)} {inner items empty inner' items' empty' : Text}
  (h : members.Perm [routing inner items, noMetrics empty])
include h

lemma setsOnce_nested (outer : Text) : (config noParsers).SetsOnce (.obj outer members) := by
  have hfields : some 1 ≠ some 5 := by decide
  refine ⟨(h.pairwise_iff fun h => h.symm).mpr (pairwise_pair.mpr hfields), ?_⟩
  intro m hm
  rcases mem_pair.mp (h.mem_iff.mp hm) with rfl | rfl
  · rintro _ ⟨⟩ _ ⟨⟩
    refine ⟨pairwise_singleton _ _, forall_mem_singleton.mpr ?_⟩
    rintro _ ⟨⟩ _ ⟨⟩
    exact forall_mem_singleton.mpr trivial
  · rintro _ ⟨⟩ _ ⟨⟩
    exact ⟨.nil, forall_mem_nil _⟩

lemma sameRaw_nested (h' : members'.Perm [routing inner' items', noMetrics empty'])
    (outer outer' : Text) :
    (config noParsers).SameRaw (.obj outer members) (.obj outer' members') := by
  have hkeys : "routing".toList ≠ "metrics".toList := by decide
  intro m hm m' hm' hkey
  rcases mem_pair.mp (h.mem_iff.mp hm) with rfl | rfl <;>
    rcases mem_pair.mp (h'.mem_iff.mp hm') with rfl | rfl
  · rintro _ ⟨⟩ _ ⟨⟩
    refine forall_mem_singleton.mpr (forall_mem_singleton.mpr ?_)
    rintro - _ ⟨⟩ _ ⟨⟩
    exact .cons rfl .nil
  · exact absurd hkey hkeys
  · exact absurd hkey.symm hkeys
  · rintro _ ⟨⟩ _ ⟨⟩
    exact forall_mem_nil _

end

/-- The same members in another order. -/
def reordered : Text :=
  ascii " \x7b \"metrics\" : \x7b\x7d , \"routing\":\x7b\"rules\":[\"a\"]\x7d\x7d "

lemma document_reordered : ∃ outer inner items empty,
    document reordered = some (.obj outer [noMetrics empty, routing inner items]) :=
  ⟨_, _, _, _, rfl⟩

/-- The same document with its keys in another order is the same configuration. -/
theorem decodeConfig_determined_reordered :
    ∃ cfg cfg' hash hash', decodeConfig noParsers id nested = .ok (cfg, hash) ∧
      decodeConfig noParsers id reordered = .ok (cfg', hash') ∧
        canonical nested = canonical reordered ∧ hash = hash' ∧ cfg = cfg' := by
  obtain ⟨⟨cfg, hash⟩, hcfg⟩ : ∃ r, decodeConfig noParsers id nested = .ok r :=
    exists_ok (by decide +kernel)
  obtain ⟨⟨cfg', hash'⟩, hcfg'⟩ : ∃ r, decodeConfig noParsers id reordered = .ok r :=
    exists_ok (by decide +kernel)
  have hcanonical : canonical nested = canonical reordered := by decide +kernel
  obtain ⟨hhash, hiff⟩ := decodeConfig_determined hcfg hcfg' hcanonical
  refine ⟨cfg, cfg', hash, hash', hcfg, hcfg', hcanonical, hhash, (hiff.mpr ?_).1⟩
  rw [SameRaw]
  obtain ⟨outer, inner, items, empty, hdoc⟩ := document_nested
  obtain ⟨outer', inner', items', empty', hdoc'⟩ := document_reordered
  refine ⟨?_, ?_, ?_⟩
  · rintro d ⟨⟩
    exact setsOnce_nested (.refl _) outer
  · rintro d ⟨⟩
    exact setsOnce_nested (.swap _ _ _) outer'
  · rintro d d' ⟨⟩ ⟨⟩
    exact sameRaw_nested (.refl _) (.swap _ _ _) outer outer'

def tags (first second : String) : Text :=
  ascii ("\x7b\"routing\":\x7b" ++ first ++ "," ++ second ++ "\x7d\x7d")

def tagsB : Text := tags "\"finalOutboundTag\":\"a\"" "\"FinalOutboundTag\":\"b\""

def tagsA : Text := tags "\"FinalOutboundTag\":\"b\"" "\"finalOutboundTag\":\"a\""

def finalOutboundTag : Value (Scalar Unit) → Option Key
  | .struct (_ :: .struct [_, _, _, .leaf (.str tag)] :: _) => some tag
  | _ => none

def tagAndHash (x : Except Failure (Value (Scalar Unit) × List Char)) :
    Option (Option Key × List Char) :=
  x.toOption.map fun r => (finalOutboundTag r.1, r.2)

lemma exists_of_tagAndHash {x : Except Failure (Value (Scalar Unit) × List Char)} {tag : Option Key}
    {hash : List Char} (h : tagAndHash x = some (tag, hash)) :
    ∃ cfg, x = .ok (cfg, hash) ∧ finalOutboundTag cfg = tag := by
  cases x with
  | error e => cases h
  | ok r =>
    cases h
    exact ⟨r.1, rfl, rfl⟩

def tagsText : List Char :=
  "\x7b\"routing\":\x7b\"FinalOutboundTag\":\"b\",\"finalOutboundTag\":\"a\"\x7d\x7d".toList

/-- Two accepted documents with one encoding, and so one hash, for two configurations. -/
theorem finalOutboundTag_not_determined :
    canonical tagsA = some tagsText ∧ canonical tagsB = some tagsText ∧
      ∃ cfg cfg', decodeConfig noParsers id tagsA = .ok (cfg, tagsText) ∧
        decodeConfig noParsers id tagsB = .ok (cfg', tagsText) ∧ cfg ≠ cfg' := by
  have hA : tagAndHash (decodeConfig noParsers id tagsA) = some (some "a".toList, tagsText) := by
    decide +kernel
  have hB : tagAndHash (decodeConfig noParsers id tagsB) = some (some "b".toList, tagsText) := by
    decide +kernel
  obtain ⟨cfg, hcfg, htag⟩ := exists_of_tagAndHash hA
  obtain ⟨cfg', hcfg', htag'⟩ := exists_of_tagAndHash hB
  refine ⟨canonical_of_decodeConfig hcfg, canonical_of_decodeConfig hcfg', cfg, cfg', hcfg, hcfg',
    ?_⟩
  rintro rfl
  exact absurd (htag.symm.trans htag') (by decide)

end BypassCore.ConfigFile
