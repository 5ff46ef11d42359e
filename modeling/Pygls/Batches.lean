import Pygls.ClientLines
import Pygls.Lib.Splice

/-!
# Edits in one notification

The changes of a `didChange` notification are made one after the other, each in the text
that the ones before it have left. A client that has a batch of edits of one text sends
them from the last to the first, with the positions they have in that text.
-/

namespace Pygls.Batches

open Lib Splice Lines PositionCodec TextDocument TextSync Offsets ClientLines

set_option autoImplicit false

/-- A replacement in terms of the client. -/
structure Replacement where
  range : Range
  text : Str

def Replacement.change (r : Replacement) : ContentChange := .changePartial r.range r.text

/-- What the client means by a replacement. -/
structure Means (encoding : Encoding) (text : Str) (r : Replacement) (e : Edit CodePoint) :
    Prop where
  order : Before r.range.start r.range.stop
  start : clientOffset encoding text r.range.start = some e.start
  stop : clientOffset encoding text r.range.stop = some e.stop
  new : e.new = r.text

/-- Edits that touch do so where no terminator may be taken apart. -/
def Clear (text : Str) : List (Edit CodePoint) → Prop
  | [] => True
  | [_] => True
  | e :: e' :: es =>
    (e.stop = e'.start → (text.take e'.start).getLast? ≠ some cr) ∧ Clear text (e' :: es)

variable {encoding : Encoding}

theorem head_terminator {t : Str} (ht : Terminator t) (hne : t ≠ []) {x : CodePoint}
    (hx : t.head? = some x) : isLineBreak x = true := by
  rcases ht with rfl | ⟨c, hc, rfl⟩ | rfl
  · exact absurd rfl hne
  · cases hx
    exact hc
  · cases hx
    exact isLineBreak_cr

/-- The first line starts with what is in front of the first boundary. -/
theorem first_line {text : Str} (hne : text ≠ []) :
    ∃ line lines rest, splitlines text = line :: lines ∧ text = body line ++ rest ∧
      (∀ c ∈ body line, isLineBreak c = false) ∧ ∀ x, rest.head? = some x → isLineBreak x = true := by
  induction text using lines_induction with
  | last b hb =>
    have hbody := body_append hb (Or.inl rfl)
    rw [List.append_nil] at hbody
    refine ⟨b, [], [], splitlines_last hb hne, ?_, ?_, ?_⟩
    · rw [hbody, List.append_nil]
    · rw [hbody]
      exact hb
    · intro x hx
      cases hx
  | client b t tail hb ht hterm hcr ih =>
    have hterm' := terminator_of_client hterm
    have hbody := body_append hb hterm'
    refine ⟨b ++ t, splitlines tail, t ++ tail, splitlines_append hb hterm' ht hcr, ?_, ?_, ?_⟩
    · rw [hbody, List.append_assoc]
    · rw [hbody]
      exact hb
    · intro x hx
      rw [List.head?_append_of_ne_nil _ ht] at hx
      exact head_terminator hterm' ht hx
  | other b c tail hb hc hclient ih =>
    have hterm : Terminator [c] := Or.inr (Or.inl ⟨c, hc, rfl⟩)
    have hbody := body_append hb hterm
    refine ⟨b ++ [c], splitlines tail, [c] ++ tail, splitlines_other hb hc hclient tail, ?_, ?_, ?_⟩
    · rw [hbody, List.append_assoc]
    · rw [hbody]
      exact hb
    · intro x hx
      cases hx
      exact hc

theorem prefix_body {b rest pre : Str} (hrest : ∀ x, rest.head? = some x → isLineBreak x = true)
    (hpre : pre <+: b ++ rest) (hplain : ∀ x ∈ pre, isLineBreak x = false) : pre <+: b := by
  rcases List.prefix_or_prefix_of_prefix hpre (List.prefix_append b rest) with h | ⟨r, rfl⟩
  · exact h
  · cases r with
    | nil => simp
    | cons x r =>
      have hx : rest.head? = some x := by
        obtain ⟨s, hs⟩ := (List.prefix_append_right_inj b).mp hpre
        rw [← hs]
        rfl
      have hplainx := hplain x (by simp)
      rw [hrest x hx] at hplainx
      cases hplainx

/-- The prefixes of a line are told apart by their units. -/
theorem find_units (h : Negotiable encoding) (line : Str) (c : Nat) (k : Nat) :
    ((List.range (line.length + 1)).find? fun k =>
        clientNumUnits encoding (line.take k) = c) = some k ↔
      k ≤ line.length ∧ clientNumUnits encoding (line.take k) = c := by
  rw [List.find?_range_eq_some]
  simp only [decide_eq_true_eq, List.mem_range, Bool.not_eq_true', decide_eq_false_iff_not]
  constructor
  · rintro ⟨hunits, hlt, -⟩
    exact ⟨by omega, hunits⟩
  · rintro ⟨hle, hunits⟩
    refine ⟨hunits, by omega, ?_⟩
    intro j hj heq
    have hless := clientNumUnits_take_lt h line hj hle
    omega

theorem clientOffset_first (h : Negotiable encoding) (text : Str) (c a : Nat) :
    clientOffset encoding text ⟨0, c⟩ = some a ↔
      ∃ pre, pre <+: text ∧ (∀ x ∈ pre, isLineBreak x = false) ∧
        clientNumUnits encoding pre = c ∧ pre.length = a := by
  by_cases hne : text = []
  · subst hne
    have hempty : clientOffset encoding [] ⟨0, c⟩ = if c = 0 then some 0 else none := by
      simp [clientOffset, splitlines]
    rw [hempty]
    constructor
    · intro ha
      obtain ⟨rfl, hzero⟩ := Option.ite_none_right_eq_some.mp ha
      obtain rfl := Option.some.inj hzero
      exact ⟨[], List.nil_prefix, by simp, clientNumUnits_nil encoding, rfl⟩
    · rintro ⟨pre, hpre, -, hunits, rfl⟩
      obtain rfl := List.prefix_nil.mp hpre
      rw [clientNumUnits_nil] at hunits
      rw [← hunits]
      rfl
  · obtain ⟨line, lines, rest, hlines, htext, hplain, hrest⟩ := first_line hne
    simp only [clientOffset, hlines, List.getElem?_cons_zero, List.take_zero, List.flatten_nil,
      List.length_nil, Nat.zero_add, Option.map_id']
    rw [find_units h]
    constructor
    · rintro ⟨hle, hunits⟩
      refine ⟨(body line).take a, ?_, ?_, hunits, List.length_take_of_le hle⟩
      · rw [htext]
        exact (List.take_prefix a (body line)).trans (List.prefix_append _ rest)
      · intro x hx
        exact hplain x (List.mem_of_mem_take hx)
    · rintro ⟨pre, hpre, hpreplain, hunits, rfl⟩
      rw [htext] at hpre
      have hbody := prefix_body hrest hpre hpreplain
      have htake : (body line).take pre.length = pre := (List.prefix_iff_eq_take.mp hbody).symm
      exact ⟨hbody.length_le, by rw [htake]; exact hunits⟩

theorem clientOffset_next {b t tail : Str} (hb : ∀ c ∈ b, isLineBreak c = false)
    (ht : Terminator t) (hne : t ≠ []) (hcr : t = [cr] → tail.head? ≠ some lf) (n c : Nat) :
    clientOffset encoding (b ++ t ++ tail) ⟨n + 1, c⟩ =
      (clientOffset encoding tail ⟨n, c⟩).map ((b ++ t).length + ·) := by
  have hlines := splitlines_append hb ht hne hcr
  have hends : b ++ t ++ tail = [] ∨ endsLine (b ++ t ++ tail) = true ↔
      tail = [] ∨ endsLine tail = true := by
    have hfull : b ++ t ++ tail ≠ [] := by simp [hne]
    by_cases hnil : tail = []
    · subst hnil
      have hlast : endsLine (b ++ t) = true := by
        rcases ht with rfl | ⟨c, hc, rfl⟩ | rfl
        · exact absurd rfl hne
        · simp [endsLine, hc]
        · simp [endsLine]
      simp [hlast]
    · have hsame : endsLine (b ++ t ++ tail) = endsLine tail := by
        rw [endsLine, endsLine, List.getLast?_append_of_ne_nil _ hnil]
      rw [hsame]
      simp [hnil, hne]
  simp only [clientOffset, hlines, List.getElem?_cons_succ]
  cases hline : (splitlines tail)[n]? with
  | some line =>
    simp only [List.take_succ_cons, List.flatten_cons, List.length_append, Option.map_map]
    congr 1
    funext k
    simp only [Function.comp_apply]
    omega
  | none =>
    simp only [List.length_cons, Nat.add_right_cancel_iff, hends]
    split
    · simp [Nat.add_assoc]
    · rfl

theorem clientOffset_last {b : Str} (hb : ∀ c ∈ b, isLineBreak c = false) (n c : Nat) :
    clientOffset encoding b ⟨n + 1, c⟩ = none := by
  by_cases hnil : b = []
  · subst hnil
    simp [clientOffset, splitlines]
  · have hends : endsLine b = false := by
      have hlast := hb (b.getLast hnil) (List.getLast_mem hnil)
      simp [endsLine, List.getLast?_eq_some_getLast hnil, hlast]
    simp [clientOffset, splitlines_last hb hnil, hends, hnil]

/-- A place stays where it is as long as the text in front of it stays, if that does not end in
`\r` where the text changes. -/
def Stays (encoding : Encoding) (text : Str) : Prop :=
  ∀ (u v w : Str) (p : Position) (a : Nat), text = u ++ v →
    clientOffset encoding text p = some a → a ≤ u.length →
    (a = u.length → u.getLast? ≠ some cr) → clientOffset encoding (u ++ w) p = some a

theorem stays_first (h : Negotiable encoding) {u v : Str} (w : Str) {c a : Nat}
    (ha : clientOffset encoding (u ++ v) ⟨0, c⟩ = some a) (hle : a ≤ u.length) :
    clientOffset encoding (u ++ w) ⟨0, c⟩ = some a := by
  obtain ⟨pre, hpre, hplain, hunits, rfl⟩ := (clientOffset_first h (u ++ v) c a).mp ha
  have hfront : pre <+: u := List.prefix_of_prefix_length_le hpre (List.prefix_append u v) hle
  exact (clientOffset_first h (u ++ w) c _).mpr
    ⟨pre, hfront.trans (List.prefix_append u w), hplain, hunits, rfl⟩

/-- A whole line in front of the place is a line of the other text too. -/
theorem stays_next {b t tail : Str} (hb : ∀ c ∈ b, isLineBreak c = false) (ht : Terminator t)
    (hne : t ≠ []) (hcr : t = [cr] → tail.head? ≠ some lf) (ih : Stays encoding tail)
    {u v : Str} (w : Str) {n c a : Nat} (htext : b ++ t ++ tail = u ++ v)
    (ha : clientOffset encoding (b ++ t ++ tail) ⟨n + 1, c⟩ = some a) (hle : a ≤ u.length)
    (hend : a = u.length → u.getLast? ≠ some cr) :
    clientOffset encoding (u ++ w) ⟨n + 1, c⟩ = some a := by
  rw [clientOffset_next hb ht hne hcr] at ha
  obtain ⟨a', ha', rfl⟩ := Option.map_eq_some_iff.mp ha
  have hfront : b ++ t <+: u ++ v := by
    rw [← htext]
    exact List.prefix_append _ tail
  have hline : b ++ t <+: u :=
    List.prefix_of_prefix_length_le hfront (List.prefix_append u v) (by omega)
  obtain ⟨u', rfl⟩ := hline
  have htail : tail = u' ++ v := by
    rw [List.append_assoc (b ++ t)] at htext
    exact List.append_cancel_left htext
  have hlength : (b ++ t ++ u').length = (b ++ t).length + u'.length := List.length_append
  have hcr' : t = [cr] → (u' ++ w).head? ≠ some lf := by
    intro hcarriage
    by_cases hnil : u' = []
    · have hzero : u'.length = 0 := by rw [hnil, List.length_nil]
      have hlast := hend (by omega)
      rw [hnil, List.append_nil, hcarriage] at hlast
      simp at hlast
    · have hsame := hcr hcarriage
      rw [htail, List.head?_append_of_ne_nil _ hnil] at hsame
      rwa [List.head?_append_of_ne_nil _ hnil]
  have hend' : a' = u'.length → u'.getLast? ≠ some cr := by
    intro hlen
    by_cases hnil : u' = []
    · simp [hnil]
    · have hlast := hend (by omega)
      rwa [List.getLast?_append_of_ne_nil _ hnil] at hlast
  have hrest := ih u' v w ⟨n, c⟩ a' htail ha' (by omega) hend'
  rw [List.append_assoc (b ++ t), clientOffset_next hb ht hne hcr', hrest]
  rfl

theorem stays (h : Negotiable encoding) (text : Str) : Stays encoding text := by
  induction text using lines_induction with
  | last b hb =>
    rintro u v w ⟨i, c⟩ a htext ha hle -
    cases i with
    | zero =>
      rw [htext] at ha
      exact stays_first h w ha hle
    | succ n =>
      rw [clientOffset_last hb] at ha
      cases ha
  | client b t tail hb hne hterm hcr ih =>
    rintro u v w ⟨i, c⟩ a htext ha hle hend
    cases i with
    | zero =>
      rw [htext] at ha
      exact stays_first h w ha hle
    | succ n => exact stays_next hb (terminator_of_client hterm) hne hcr ih w htext ha hle hend
  | other b x tail hb hx hclient ih =>
    rintro u v w ⟨i, c⟩ a htext ha hle hend
    cases i with
    | zero =>
      rw [htext] at ha
      exact stays_first h w ha hle
    | succ n =>
      have hcr : [x] = [cr] → tail.head? ≠ some lf := by
        intro heq
        rw [List.singleton_inj.mp heq] at hclient
        cases hclient
      exact stays_next hb (Or.inr (Or.inl ⟨x, hx, rfl⟩)) (List.cons_ne_nil x []) hcr ih w htext ha
        hle hend

/-- What is in front of the next edit keeps its places when the edits behind are made. -/
theorem clientOffset_behind (h : Negotiable encoding) {text : Str} {e' : Edit CodePoint}
    {es : List (Edit CodePoint)} (hapart : Splice.Apart text.length e'.start (e' :: es)) {p : Position}
    {a : Nat} (ha : clientOffset encoding text p = some a) (hle : a ≤ e'.start)
    (hclear : a = e'.start → (text.take e'.start).getLast? ≠ some cr) :
    clientOffset encoding ((e' :: es).foldr Edit.apply text) p = some a := by
  have hlength : (text.take e'.start).length = e'.start :=
    List.length_take_of_le hapart.place_le
  rw [foldr_apply hapart]
  apply stays h text (text.take e'.start) (text.drop e'.start) _ p a
    (List.take_append_drop _ text).symm ha
  · rw [hlength]
    exact hle
  · rw [hlength]
    exact hclear

theorem clientEdit_of_means {text other : Str} {r : Replacement} {e : Edit CodePoint}
    (hr : Means encoding text r e)
    (hstays : ∀ p a, clientOffset encoding text p = some a → a ≤ e.stop →
      (a = e.start ∨ a = e.stop) → clientOffset encoding other p = some a)
    (horder : e.start ≤ e.stop) :
    clientEdit encoding other r.change = some (e.apply other) := by
  have hstart := hstays _ _ hr.start horder (Or.inl rfl)
  have hstop := hstays _ _ hr.stop (Nat.le_refl _) (Or.inr rfl)
  simp only [Replacement.change, clientEdit, if_pos hr.order, hstart, hstop, Option.bind_some,
    Option.map_some, Edit.apply, hr.new]

/-- The changes from the last to the first are the edits from the last to the first. -/
theorem foldrM_clientEdit (h : Negotiable encoding) {text : Str} {rs : List Replacement}
    {es : List (Edit CodePoint)} (hmeans : List.Forall₂ (Means encoding text) rs es) {place : Nat}
    (hapart : Splice.Apart text.length place es) (hclear : Clear text es) :
    (rs.map Replacement.change).foldrM (fun change text => clientEdit encoding text change) text =
      some (es.foldr Edit.apply text) := by
  induction hmeans generalizing place with
  | nil => rfl
  | @cons r e rs es hr hrest ih =>
    obtain ⟨hplace, horder, hapart⟩ := hapart
    cases es with
    | nil =>
      cases hrest
      have hedit := clientEdit_of_means hr (fun _ _ ha _ _ => ha) horder
      simpa using hedit
    | cons e' es =>
      have hnext : Splice.Apart text.length e'.start (e' :: es) := ⟨Nat.le_refl _, hapart.2⟩
      rw [List.map_cons, List.foldrM_cons, ih hapart hclear.2]
      apply clientEdit_of_means hr _ horder
      intro p a ha hle hends
      apply clientOffset_behind h hnext ha (Nat.le_trans hle hapart.1)
      intro heq
      apply hclear.1
      have hstop := hapart.1
      omega

/-- A batch of edits of a text, sent in one notification from the last to the first, is made at
once: in every state that the client's notifications lead to. The client counts lines as
`TextDocument.lines` does. -/
theorem batch_is_made_at_once (disk : Disk) (folders : List WorkspaceFolder)
    (h : Negotiable encoding) {notifications : List TextNotification} {client : TextSync.Client}
    (hrun : run (TextSync.clientStep encoding) (fun _ => none) notifications = some client)
    {id : VersionedTextDocumentIdentifier} {text : Str} (htext : client id.uri = some text)
    {replacements : List Replacement} {edits : List (Edit CodePoint)}
    (hmeans : List.Forall₂ (Means encoding text) replacements edits)
    (hapart : Splice.Apart text.length 0 edits) (hclear : Clear text edits) :
    ∃ ws, run (serverStep disk) (Workspace.new .incremental folders encoding)
        (notifications ++ [.didChange id (replacements.map Replacement.change).reverse]) = some ws ∧
      (ws.getTextDocument id.uri).source disk = .ok (together text edits) := by
  have hedits : (replacements.map Replacement.change).reverse.foldlM (clientEdit encoding) text =
      some (together text edits) := by
    rw [List.foldlM_reverse, foldrM_clientEdit h hmeans hapart hclear,
      foldr_apply_eq_together hapart]
  have hclient : run (clientStep encoding) (fun _ => none)
      (notifications ++ [.didChange id (replacements.map Replacement.change).reverse]) =
        some (Function.update client id.uri (some (together text edits))) := by
    simp only [run_append, hrun, Option.bind_some, run, TextSync.clientStep, htext, hedits,
      Option.map_some]
  have hkeep : ∀ c ws n c', Synced encoding c ws → clientStep encoding c n = some c' →
      ∃ ws', serverStep disk ws n = some ws' ∧ Synced encoding c' ws' :=
    fun c ws n c' hs hn => ⟨_, rfl, serverStep_synced disk h hs hn⟩
  obtain ⟨ws, hws, hsynced⟩ := run_simulation hkeep (new_synced folders encoding) hclient
  obtain ⟨doc, hget, hdoc⟩ := hsynced.opened id.uri (together text edits) (by simp)
  refine ⟨ws, hws, ?_⟩
  simp only [Workspace.getTextDocument, hget, Option.getD_some, source, hdoc.stored]

/-- `b` and `d` in `a\nb😋cd` are replaced at once: `d` gets the longer text, and keeps its
place in front of the edit of `b`. -/
theorem batch_is_made_at_once_pair :
    let disk : Disk := fun uri => .error (.osError uri)
    let change : List ContentChange :=
      [.changePartial ⟨⟨1, 4⟩, ⟨1, 5⟩⟩ [0x78, lf, 0x79], .changePartial ⟨⟨1, 0⟩, ⟨1, 1⟩⟩ []]
    let opened : TextNotification := .didOpen ⟨[0x75], [], 0, [0x61, lf, 0x62, 0x1F60B, 0x63, 0x64]⟩
    ∃ ws, run (serverStep disk) (Workspace.new .incremental [] .utf16)
        [opened, .didChange ⟨[0x75], 1⟩ change] = some ws ∧
      (ws.getTextDocument [0x75]).source disk =
        .ok [0x61, lf, 0x1F60B, 0x63, 0x78, lf, 0x79] := by
  intro disk change opened
  have hmeans : List.Forall₂ (Means .utf16 [0x61, lf, 0x62, 0x1F60B, 0x63, 0x64])
      [⟨⟨⟨1, 0⟩, ⟨1, 1⟩⟩, []⟩, ⟨⟨⟨1, 4⟩, ⟨1, 5⟩⟩, [0x78, lf, 0x79]⟩]
      [⟨2, 3, []⟩, ⟨5, 6, [0x78, lf, 0x79]⟩] := by
    apply List.Forall₂.cons
    · exact ⟨by decide, by decide, by decide, rfl⟩
    · apply List.Forall₂.cons
      · exact ⟨by decide, by decide, by decide, rfl⟩
      · exact List.Forall₂.nil
  have hrun : run (clientStep .utf16) (fun _ => none) [opened] =
      some (Function.update (fun _ => none) [0x75] (some [0x61, lf, 0x62, 0x1F60B, 0x63, 0x64])) :=
    rfl
  obtain ⟨ws, hws, hsource⟩ := batch_is_made_at_once disk [] (Or.inr (Or.inl rfl)) hrun
    (show _ = some [0x61, lf, 0x62, 0x1F60B, 0x63, 0x64] from
      Function.update_self (⟨[0x75], 1⟩ : VersionedTextDocumentIdentifier).uri _ _)
    hmeans (by simp [Splice.Apart]) (by simp [Clear])
  exact ⟨ws, hws, hsource⟩

/-- Edits that touch behind a `\r` are not made at once: a `\n` that is put there moves the
place of the other one. -/
example :
    let sent := [Replacement.change ⟨⟨⟨1, 0⟩, ⟨1, 1⟩⟩, [lf]⟩, .changePartial ⟨⟨1, 0⟩, ⟨1, 0⟩⟩ [0x63]]
    let at_once := together [0x61, cr, 0x62] [⟨2, 2, [0x63]⟩, ⟨2, 3, [lf]⟩]
    sent.foldlM (clientEdit .utf8) [0x61, cr, 0x62] = some [0x61, cr, lf, 0x63] ∧
      at_once = [0x61, cr, 0x63, lf] := by decide

end Pygls.Batches
