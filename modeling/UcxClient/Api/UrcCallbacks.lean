import UcxClient.Api.Urc
import UcxClient.Client.Configurations
import UcxClient.Client.Lines

/-!
# Typed URC callbacks

`receiveTyped` is `receive` with `urcCallback` as the callback of the client: it reports the calls of the typed
callbacks. `receiveTyped_heard`: for any stream, however it is split into reads and calls, they are those of the
complete URCs of the stream, each heard on its own, where the URC queue has room for those of each call (`HasRoom`)
and no call returns within a payload. So URCs that are written as the module writes them lead to exactly the
calls with their arguments (`typed_urcs_received`).
-/

open UrcQueue AtClient AtState

/-! ## The line of a URC -/

/-- The line of a URC with these arguments. -/
def urcLine (n : UrcName) (args : List Arg) : List UInt8 :=
  if args = [] then n.chars else n.chars ++ ch ':' :: commaSeparated (args.map Arg.token)

theorem UrcName.chars_facts (n : UrcName) : 0 ∉ n.chars ∧ ch ':' ∉ n.chars ∧ isUrcLine n.chars = true ∧
    n.chars.all isprint = true := by
  have hall : ∀ n ∈ all, 0 ∉ n.chars ∧ ch ':' ∉ n.chars ∧ isUrcLine n.chars = true ∧
      n.chars.all isprint = true := by decide +kernel
  exact hall n (mem_all n)

section
variable {n : UrcName} {args : List Arg}

/-- The parser of a URC, for parameters that are written as arguments are. -/
theorem parseUrc_args (callbacks : UrcName → Bool) (htyped : args.map Arg.fmt = n.fmt)
    (hargs : ∀ a ∈ args, a.Parsable) (pre post : List UInt8) :
    ∃ ret rest, uCxUrcParse callbacks n.chars (pre ++ commaSeparated (args.map Arg.token) ++ 0 :: post)
      pre.length = some ⟨ret, if callbacks n then [⟨n, args⟩] else [], rest⟩ := by
  obtain ⟨rest, new, hloop, hnew⟩ := loop_decodes hargs pre post 0 []
  rw [htyped] at hloop
  rw [uCxUrcParse_eq, UrcName.ofChars_chars]
  simp only [parseUrc, uCxAtUtilParseParamsVaList, hloop, Option.map_some, List.nil_append, hnew]
  have hret : (0 : Int) ≤ 0 + args.length := by omega
  exact ⟨0 + args.length, pre ++ rest, by simp only [hret, true_and]⟩

theorem zero_notMem_urcLine (hargs : ∀ a ∈ args, a.Parsable) : 0 ∉ urcLine n args := by
  have h0 := n.chars_facts.1
  rw [urcLine]
  split
  · exact h0
  · rw [List.mem_append, List.mem_cons, not_or, not_or]
    exact ⟨h0, by decide, zero_notMem_commaSeparated hargs⟩

/-- A line that is written as the module writes it is heard as the call with its arguments. -/
theorem heard_urcLine (callbacks : UrcName → Bool) (htyped : args.map Arg.fmt = n.fmt)
    (hargs : ∀ a ∈ args, a.Parsable) :
    heard callbacks (urcLine n args) = if callbacks n then [⟨n, args⟩] else [] := by
  obtain ⟨h0, hcolon, -⟩ := n.chars_facts
  obtain ⟨line', ret, -, hcall⟩ := urcCallback_heard callbacks (zero_notMem_urcLine (n := n) hargs) []
  have hparsed : ∃ ret rest, urcCallback callbacks (urcLine n args ++ 0 :: []) (urcLine n args).length =
      some ⟨ret, if callbacks n then [⟨n, args⟩] else [], rest⟩ := by
    rw [urcLine]
    split
    · next hnil =>
      rw [urcCallback_bare callbacks h0 hcolon]
      have h := parseUrc_args callbacks htyped hargs n.chars []
      rwa [hnil] at h ⊢
    · rw [urcCallback_colon callbacks h0 hcolon]
      exact parseUrc_args callbacks htyped hargs (n.chars ++ [0]) []
  obtain ⟨ret', rest, hparsed⟩ := hparsed
  rw [hcall] at hparsed
  exact congrArg UrcParsed.calls (Option.some.inj hparsed)

end

theorem Arg.Parsable.isprint {a : Arg} (h : a.Parsable) : ∀ c ∈ a.token, isprint c = true := by
  cases hs : a.string? with
  | none => exact token_isprint h.1 hs
  | some s =>
    rw [(h.2.1 s hs).token hs]
    intro c hc
    rcases List.mem_append.1 hc with hc | hc
    · rcases List.mem_cons.1 hc with rfl | hc
      · rfl
      · obtain ⟨d, -, hc⟩ := List.mem_flatMap.1 hc
        exact isprint_escapeCharacter hc
    · obtain rfl := List.mem_singleton.1 hc
      rfl

theorem isprint_urcLine {n : UrcName} {args : List Arg} (hargs : ∀ a ∈ args, a.Parsable) :
    ∀ c ∈ urcLine n args, isprint c = true := by
  have hname := List.all_eq_true.1 n.chars_facts.2.2.2
  intro c hc
  rw [urcLine] at hc
  split at hc
  · exact hname c hc
  · rcases List.mem_append.1 hc with hc | hc
    · exact hname c hc
    rcases List.mem_cons.1 hc with rfl | hc
    · rfl
    rcases mem_commaSeparated hc with rfl | ⟨t, ht, hc⟩
    · rfl
    · obtain ⟨a, ha, rfl⟩ := List.mem_map.1 ht
      exact (hargs a ha).isprint c hc

theorem isUrcLine_urcLine (n : UrcName) (args : List Arg) : isUrcLine (urcLine n args) = true := by
  have hurc := n.chars_facts.2.2.1
  rw [urcLine]
  split
  · exact hurc
  · cases hn : n.chars with
    | nil =>
      rw [hn] at hurc
      exact absurd hurc (by decide)
    | cons c cs =>
      rw [hn] at hurc
      exact hurc

/-- A URC as the module writes it to a receiver with a line buffer of `n` bytes. -/
structure TypedUrc (n : Nat) where
  callback : UrcName
  args : List Arg
  eols : List UInt8
  typed : args.map Arg.fmt = callback.fmt
  parsable : ∀ a ∈ args, a.Parsable
  short : (urcLine callback args).length < n
  ended : eols ≠ []
  eol : ∀ b ∈ eols, isEol b = true

namespace TypedUrc

variable {n : Nat} (u : TypedUrc n)

def line : Transaction.Line := ⟨urcLine u.callback u.args, u.eols⟩

def call : UrcCall := ⟨u.callback, u.args⟩

theorem line_ok : u.line.Ok n := ⟨isprint_urcLine u.parsable, u.short, u.ended, u.eol⟩

theorem heard_line (callbacks : UrcName → Bool) :
    heard callbacks u.line.chars = if callbacks u.callback then [u.call] else [] :=
  heard_urcLine callbacks u.typed u.parsable

end TypedUrc

/-! ## The lines of a stream -/

theorem isprint_inLine {b : UInt8} (h : isprint b = true) : b ≠ sohChar ∧ isEol b = false ∧ b ≠ 0 := by
  have hall : ∀ b, isprint b = true → b ≠ sohChar ∧ isEol b = false ∧ b ≠ 0 := forall_byte (by decide +kernel)
  exact hall b h

theorem eol_ne_soh {b : UInt8} (h : isEol b = true) : b ≠ sohChar := by
  rintro rfl
  cases h

namespace UrcReader

section
variable {n : Nat} {line : List UInt8}

/-- The characters of a line that fits into the line buffer. -/
theorem read_chars (pre : List UInt8) (hline : ∀ b ∈ line, isprint b = true)
    (hshort : pre.length + line.length < n) : read n ⟨pre, .text⟩ line = (⟨pre ++ line, .text⟩, []) := by
  induction line generalizing pre with
  | nil =>
    rw [List.append_nil]
    rfl
  | cons b line ih =>
    have hb := hline b List.mem_cons_self
    rw [List.length_cons] at hshort
    have hstep : step n ⟨pre, .text⟩ b = (⟨pre ++ [b], .text⟩, []) := by
      have hroom : ¬pre.length + 1 = n := by omega
      simp only [step, (isprint_inLine hb).1, (isprint_inLine hb).2.1, hb, hroom, if_false, if_true,
        Bool.false_eq_true]
    have hrest := ih (pre ++ [b]) (fun c hc => hline c (List.mem_cons_of_mem b hc)) (by
      rw [List.length_append, List.length_singleton]
      omega)
    rw [read_cons, hstep, hrest, List.append_assoc]
    rfl

theorem step_eol {b : UInt8} (hb : isEol b = true) : step n ⟨line, .text⟩ b = lineEnd line 0 := by
  simp only [step, eol_ne_soh hb, hb, if_false, if_true]

/-- The characters that end a line behind the first one. -/
theorem read_eols {eols : List UInt8} (h : ∀ b ∈ eols, isEol b = true) :
    read n ⟨[], .text⟩ eols = (⟨[], .text⟩, []) := by
  induction eols with
  | nil => rfl
  | cons b eols ih =>
    have hempty : lineEnd [] 0 = (⟨[], .text⟩, []) := rfl
    rw [read_cons, step_eol (h b List.mem_cons_self), hempty, ih fun c hc => h c (List.mem_cons_of_mem b hc)]
    rfl

/-- The line of a URC. -/
theorem read_line {l : Transaction.Line} (hl : l.Ok n) (hurc : isUrcLine l.chars = true) :
    read n ⟨[], .text⟩ l.bytes = (⟨[], .text⟩, [.announced l.chars 0, .complete ⟨l.chars, []⟩]) := by
  obtain ⟨b, eols, heols⟩ := List.exists_cons_of_ne_nil hl.ended
  have heol := hl.eol
  rw [heols] at heol
  have hend : lineEnd l.chars 0 = (⟨[], .text⟩, [.announced l.chars 0, .complete ⟨l.chars, []⟩]) := by
    rw [lineEnd, if_pos hurc, if_pos rfl]
  rw [Transaction.Line.bytes, heols, read_append,
    read_chars [] hl.printable (by rw [List.length_nil, Nat.zero_add]; exact hl.short), List.nil_append,
    read_cons, step_eol (heol b List.mem_cons_self), hend,
    read_eols fun c hc => heol c (List.mem_cons_of_mem b hc)]
  rfl

/-- The lines of URCs. -/
theorem read_lines {ls : List Transaction.Line} (hls : ∀ l ∈ ls, l.Ok n ∧ isUrcLine l.chars = true) :
    read n ⟨[], .text⟩ (ls.flatMap Transaction.Line.bytes) =
      (⟨[], .text⟩, ls.flatMap fun l => [.announced l.chars 0, .complete ⟨l.chars, []⟩]) := by
  induction ls with
  | nil => rfl
  | cons l ls ih =>
    obtain ⟨hl, hurc⟩ := hls l List.mem_cons_self
    rw [List.flatMap_cons, read_append, read_line hl hurc, ih fun l hl => hls l (List.mem_cons_of_mem _ hl)]
    rfl

end

/-! ## The lines of URCs are printable -/

/-- The line so far, and the line of the URC whose payload is read. -/
def Printable (r : UrcReader) : Prop :=
  (∀ b ∈ r.line, isprint b = true) ∧
    ∀ line data left, r.phase = .payload (some line) data left → ∀ b ∈ line, isprint b = true

section
variable {r : UrcReader}

theorem lineEnd_printable {line : List UInt8} (h : ∀ b ∈ line, isprint b = true) (length : Nat) :
    (lineEnd line length).1.Printable ∧
      ∀ u ∈ UrcEvent.urcs (lineEnd line length).2, ∀ b ∈ u.line, isprint b = true := by
  have hnil : ∀ b ∈ ([] : List UInt8), isprint b = true := fun b hb => absurd hb List.not_mem_nil
  unfold lineEnd
  by_cases hurc : isUrcLine line = true
  · rw [if_pos hurc]
    by_cases hzero : length = 0
    · rw [if_pos hzero]
      refine ⟨⟨hnil, fun _ _ _ hp => ?_⟩, fun u hu => ?_⟩
      · cases hp
      · obtain rfl := List.mem_singleton.1 hu
        exact h
    · rw [if_neg hzero]
      refine ⟨⟨hnil, fun _ _ _ hp => ?_⟩, fun u hu => absurd hu List.not_mem_nil⟩
      cases hp
      exact h
  · rw [if_neg hurc]
    refine ⟨⟨hnil, fun _ _ _ hp => ?_⟩, fun u hu => absurd hu List.not_mem_nil⟩
    dsimp only at hp
    split at hp <;> cases hp

theorem step_printable (n : Nat) (h : r.Printable) (b : UInt8) : (step n r b).1.Printable ∧
    ∀ u ∈ UrcEvent.urcs (step n r b).2, ∀ c ∈ u.line, isprint c = true := by
  have hno : ∀ u ∈ UrcEvent.urcs [], ∀ c ∈ u.line, isprint c = true := fun u hu => absurd hu List.not_mem_nil
  obtain ⟨line, phase⟩ := r
  obtain ⟨hline, hphase⟩ := h
  cases phase with
  | text =>
    simp only [step]
    by_cases hsoh : b = sohChar
    · rw [if_pos hsoh]
      exact ⟨⟨hline, fun _ _ _ hp => by cases hp⟩, hno⟩
    by_cases heol : isEol b = true
    · rw [if_neg hsoh, if_pos heol]
      exact lineEnd_printable hline 0
    by_cases hprint : isprint b = true
    · rw [if_neg hsoh, if_neg heol, if_pos hprint]
      refine ⟨⟨fun c hc => ?_, fun _ _ _ hp => by cases hp⟩, hno⟩
      dsimp only at hc
      split at hc
      · exact absurd hc List.not_mem_nil
      · rcases List.mem_append.1 hc with hc | hc
        · exact hline c hc
        · obtain rfl := List.mem_singleton.1 hc
          exact hprint
    · rw [if_neg hsoh, if_neg heol, if_neg hprint]
      exact ⟨⟨hline, hphase⟩, hno⟩
  | length => exact ⟨⟨hline, fun _ _ _ hp => by cases hp⟩, hno⟩
  | length1 high => exact lineEnd_printable hline _
  | payload urc data left =>
    simp only [step]
    by_cases hlast : left ≤ 1
    · rw [if_pos hlast]
      refine ⟨⟨hline, fun _ _ _ hp => by cases hp⟩, fun u hu => ?_⟩
      cases urc with
      | none => exact absurd hu List.not_mem_nil
      | some l =>
        obtain rfl := List.mem_singleton.1 hu
        exact hphase l data left rfl
    · rw [if_neg hlast]
      refine ⟨⟨hline, fun l _ _ hp => ?_⟩, hno⟩
      cases hp
      exact hphase l data left rfl

theorem read_printable (n : Nat) (h : r.Printable) (bs : List UInt8) : (read n r bs).1.Printable ∧
    ∀ u ∈ UrcEvent.urcs (read n r bs).2, ∀ c ∈ u.line, isprint c = true := by
  induction bs generalizing r with
  | nil => exact ⟨h, fun u hu => absurd hu List.not_mem_nil⟩
  | cons b bs ih =>
    obtain ⟨hstep, hurcs⟩ := step_printable n h b
    obtain ⟨hread, hrest⟩ := ih hstep
    rw [read_cons, UrcEvent.urcs_append]
    exact ⟨hread, fun u hu => (List.mem_append.1 hu).elim (hurcs u) (hrest u)⟩

end

end UrcReader

/-! ## The calls -/

/-- The calls of the typed callbacks in a call of `urcCallback`. -/
def typedCalls (callbacks : UrcName → Bool) (v : Urc.View) : List UrcCall :=
  ((urcCallback callbacks v.data v.strLineLen).map (·.calls)).getD []

/-- What `urcCallback` leaves of the data of an entry. -/
def urcEdit (callbacks : UrcName → Bool) : Callback := fun data =>
  ((urcCallback callbacks data (cstr data 0).length).map (·.m)).getD data

/-- Calls of `uCxAtClientHandleRx` with `urcCallback` as the URC callback, and the calls of the typed callbacks
in them. -/
def receiveTyped (callbacks : UrcName → Bool) (t : Nat) :
    Nat → AtState → Uart → Option (List UrcCall × AtState × Uart)
  | 0, s, uart => some ([], s, uart)
  | k + 1, s, uart =>
    (s.uCxAtClientHandleRx t (urcEdit callbacks) uart).bind fun (calls, s, uart) =>
      (receiveTyped callbacks t k s uart).map fun (typed, s, uart) =>
        (calls.flatMap (fun call => typedCalls callbacks call.2) ++ typed, s, uart)

section
variable {callbacks : UrcName → Bool}

theorem typedCalls_view {u : Urc} (h0 : 0 ∉ u.line) : typedCalls callbacks u.view = heard callbacks u.line := by
  obtain ⟨line', ret, -, hcall⟩ := urcCallback_heard callbacks h0 u.payload
  rw [typedCalls, Urc.view]
  dsimp only
  rw [Urc.data, hcall]
  rfl

section
variable {t n len : Nat} {s : AtState} {r : UrcReader}

/-- A reader that is outside the payloads hears the URCs that it completes. -/
theorem receiveTyped_reads (h : Keeps t n len r [] s) (hprint : r.Printable) (hsmall : len < 2 ^ 31) (k : Nat)
    (uart : Uart) (hroom : roomInCalls t (urcEdit callbacks) n len k r s uart = true)
    (hout : returnsOutside t (urcEdit callbacks) k s uart = true) :
    ∃ bs s' uart', receiveTyped callbacks t k s uart =
        some ((UrcEvent.urcs (UrcReader.read n r bs).2).flatMap (fun u => heard callbacks u.line), s', uart') ∧
      uart.rx = bs ++ uart'.rx := by
  induction k generalizing r s uart with
  | zero => exact ⟨[], s, uart, rfl, rfl⟩
  | succ k ih =>
    obtain ⟨hneeds, hroom'⟩ := roomInCalls_succ _ hroom
    obtain ⟨hreturns, hout'⟩ := returnsOutside_succ _ hout
    obtain ⟨calls, s1, uart1, hcall, hrx, hviews, hkeeps, -⟩ :=
      handleRx_views (urcEdit callbacks) h hsmall uart hneeds hreturns
    obtain ⟨hprint', hlines⟩ := UrcReader.read_printable n hprint (s.taken t uart)
    obtain ⟨cs, s2, uart2, hreceive, hrx'⟩ :=
      ih hkeeps hprint' uart1 (hroom' _ _ _ hcall) (hout' _ _ _ hcall)
    have htyped : calls.flatMap (fun call => typedCalls callbacks call.2) =
        (UrcEvent.urcs (UrcReader.read n r (s.taken t uart)).2).flatMap fun u => heard callbacks u.line := by
      have hmap : calls.flatMap (fun call => typedCalls callbacks call.2) =
          (calls.map Prod.snd).flatMap (typedCalls callbacks) := by rw [List.flatMap_map]
      rw [hmap, hviews, List.flatMap_map, List.flatMap_def, List.flatMap_def]
      refine congrArg List.flatten (List.map_congr_left fun u hu => typedCalls_view fun h0 => ?_)
      exact (isprint_inLine (hlines u hu 0 h0)).2.2 rfl
    refine ⟨s.taken t uart ++ cs, s2, uart2, ?_, by rw [List.append_assoc, ← hrx', hrx]⟩
    simp only [receiveTyped, hcall, Option.bind_some, hreceive, Option.map_some, htyped]
    rw [UrcReader.read_append, UrcEvent.urcs_append, List.flatMap_append]

end

/-- What the reader of an idle client starts from. -/
theorem AtState.Idle.keeps {s : AtState} (hs : s.Idle) (t : Nat) :
    Keeps t s.client.rxBufferLen s.client.urcQueue.bufferLen ⟨s.client.rxBuffer, .text⟩ [] s :=
  ⟨⟨hs.executingCmd, rfl, rfl, hs.isBinaryRx, hs.rxHeaderCount⟩, hs.queue, rfl, hs.opened, hs.urcCallback⟩

/-- In each of the calls an idle client has room for the URCs that are announced. -/
def AtState.HasRoom (t : Nat) (edit : Callback) (k : Nat) (s : AtState) (uart : Uart) : Prop :=
  roomInCalls t edit s.client.rxBufferLen s.client.urcQueue.bufferLen k ⟨s.client.rxBuffer, .text⟩ s uart = true

instance (t : Nat) (edit : Callback) (k : Nat) (s : AtState) (uart : Uart) : Decidable (s.HasRoom t edit k uart) :=
  inferInstanceAs (Decidable (_ = true))

/-- **Every URC of a stream is heard once, in order**, however the stream is split into reads and calls, where
the URCs of each call have room in the queue and no call returns within a payload. -/
theorem receiveTyped_heard (callbacks : UrcName → Bool) (t : Nat) {s : AtState} (hs : s.Idle)
    (hbuf : ∀ b ∈ s.client.rxBuffer, isprint b = true) (hsmall : s.client.urcQueue.bufferLen < 2 ^ 31)
    {bs : List UInt8} {k : Nat} {sched : List Arrival} (hroom : s.HasRoom t (urcEdit callbacks) k ⟨bs, sched⟩)
    (hout : returnsOutside t (urcEdit callbacks) k s ⟨bs, sched⟩ = true)
    (hall : (receiveTyped callbacks t k s ⟨bs, sched⟩).map (·.2.2.rx) = some []) :
    (receiveTyped callbacks t k s ⟨bs, sched⟩).map (·.1) =
      some ((UrcEvent.urcs (s.urcEvents bs)).flatMap fun u => heard callbacks u.line) := by
  have hprint : (⟨s.client.rxBuffer, .text⟩ : UrcReader).Printable := ⟨hbuf, fun _ _ _ hp => by cases hp⟩
  obtain ⟨cs, s', uart', hreceive, hrx⟩ :=
    receiveTyped_reads (hs.keeps t) hprint hsmall k ⟨bs, sched⟩ hroom hout
  rw [hreceive] at hall ⊢
  have hnil : uart'.rx = [] := Option.some.inj hall
  rw [hnil, List.append_nil] at hrx
  obtain rfl : bs = cs := hrx
  rfl

theorem read_typed {n : Nat} (us : List (TypedUrc n)) :
    UrcReader.read n ⟨[], .text⟩ (us.flatMap fun u => u.line.bytes) =
      (⟨[], .text⟩, us.flatMap fun u => [.announced u.line.chars 0, .complete ⟨u.line.chars, []⟩]) := by
  have hlines : ∀ l ∈ us.map TypedUrc.line, l.Ok n ∧ isUrcLine l.chars = true := by
    intro l hl
    obtain ⟨u, -, rfl⟩ := List.mem_map.1 hl
    exact ⟨u.line_ok, isUrcLine_urcLine _ _⟩
  have hread := UrcReader.read_lines hlines
  rwa [List.flatMap_map, List.flatMap_map] at hread

/-- What the URCs of the stream come to. -/
theorem typed_events {n : Nat} (us : List (TypedUrc n)) :
    let es := us.flatMap fun u => [UrcEvent.announced u.line.chars 0, .complete ⟨u.line.chars, []⟩]
    UrcEvent.urcs es = us.map (fun u => ⟨u.line.chars, []⟩) ∧ UrcEvent.NoPayload es := by
  induction us with
  | nil => exact ⟨rfl, fun e he => absurd he List.not_mem_nil⟩
  | cons u us ih =>
    obtain ⟨hurcs, hno⟩ := ih
    refine ⟨?_, ?_⟩
    · rw [List.flatMap_cons, UrcEvent.urcs_append, hurcs]
      rfl
    · rw [List.flatMap_cons, UrcEvent.noPayload_append]
      refine ⟨fun e he => ?_, hno⟩
      rcases List.mem_cons.1 he with rfl | he
      · rfl
      · obtain rfl := List.mem_singleton.1 he
        rfl

theorem heard_typed (callbacks : UrcName → Bool) {n : Nat} (us : List (TypedUrc n)) :
    us.flatMap (fun u => heard callbacks u.line.chars) =
      (us.filter fun u => callbacks u.callback).map TypedUrc.call := by
  induction us with
  | nil => rfl
  | cons u us ih =>
    rw [List.flatMap_cons, ih, u.heard_line, List.filter_cons]
    cases callbacks u.callback <;> rfl

/-- **URCs reach their callbacks with the arguments that were written**, each of them once and in order, and
those without a callback reach none, where the URCs of each call have room in the queue. -/
theorem typed_urcs_received (callbacks : UrcName → Bool) (t : Nat) {s : AtState} (hs : s.Idle)
    (hbuf : s.client.rxBuffer = []) (hsmall : s.client.urcQueue.bufferLen < 2 ^ 31)
    (us : List (TypedUrc s.client.rxBufferLen)) {k : Nat} {sched : List Arrival}
    (hroom : s.HasRoom t (urcEdit callbacks) k ⟨us.flatMap fun u => u.line.bytes, sched⟩)
    (hall : (receiveTyped callbacks t k s ⟨us.flatMap fun u => u.line.bytes, sched⟩).map (·.2.2.rx) = some []) :
    (receiveTyped callbacks t k s ⟨us.flatMap fun u => u.line.bytes, sched⟩).map (·.1) =
      some ((us.filter fun u => callbacks u.callback).map TypedUrc.call) := by
  obtain ⟨hurcs, hno⟩ := typed_events us
  have hevents : s.urcEvents (us.flatMap fun u => u.line.bytes) =
      us.flatMap fun u => [.announced u.line.chars 0, .complete ⟨u.line.chars, []⟩] := by
    rw [urcEvents, hbuf, read_typed]
  have hout : returnsOutside t (urcEdit callbacks) k s ⟨us.flatMap fun u => u.line.bytes, sched⟩ = true :=
    returnsOutside_of_noPayload _ (hs.keeps t) rfl hsmall k _ hroom (by rw [hbuf, read_typed]; exact hno)
  rw [receiveTyped_heard callbacks t hs (by simp [hbuf]) hsmall hroom hout hall, hevents, hurcs, List.flatMap_map]
  exact congrArg some (heard_typed callbacks us)

/-! ## Samples -/

/-- An opened client with a line buffer of 32 bytes and a URC buffer of 40. -/
def typedClient : AtState :=
  ⟨{ uCxAtClientInit false 32 (List.replicate 40 0) with opened := true, urcCallback := true },
    ⟨fun _ _ => 0, fun _ => 0⟩, (0, 0)⟩

theorem idle_typedClient : typedClient.Idle :=
  ⟨rfl, rfl, rfl, rfl, rfl, rfl, ⟨⟨_, rfl⟩, rfl, rfl, rfl, ⟨rfl, rfl⟩, ⟨rfl, rfl⟩⟩⟩

def sampleUrcs : List (TypedUrc 32) :=
  [⟨.startup, [], text "\r\n", rfl, fun _ ha => absurd ha List.not_mem_nil, by decide, by decide,
      List.all_eq_true.1 rfl⟩,
   ⟨.uewld, [.int 0, .int 3], text "\r\n", rfl,
      List.forall_mem_cons.2 ⟨Arg.parsable_int 0, List.forall_mem_singleton.2 (Arg.parsable_int 3)⟩, by decide,
      by decide, List.all_eq_true.1 rfl⟩,
   ⟨.uesoda, [.int 1, .int (-7)], text "\r", rfl,
      List.forall_mem_cons.2 ⟨Arg.parsable_int 1, List.forall_mem_singleton.2 (Arg.parsable_int (-7))⟩, by decide,
      by decide, List.all_eq_true.1 rfl⟩]

/-- There is no callback for the second one. The three have no room together, but those of each call have. -/
theorem typed_urcs_received_sample :
    (receiveTyped (fun n => decide (n ≠ .uewld)) 0 2 typedClient ⟨sampleUrcs.flatMap fun u => u.line.bytes,
      List.replicate 22 (.avail 1) ++ .avail 0 :: List.replicate 14 (.avail 1)⟩).map (·.1) =
      some [⟨.startup, []⟩, ⟨.uesoda, [.int 1, .int (-7)]⟩] :=
  typed_urcs_received (fun n => decide (n ≠ .uewld)) 0 idle_typedClient rfl (by decide +kernel) sampleUrcs
    (by decide +kernel) (by decide +kernel)

/-- A URC with a payload and one that is not known. -/
theorem receiveTyped_heard_payload :
    (receiveTyped (fun _ => true) 0 2 typedClient
      ⟨text "+UEDGI:\"ab\"" ++ [sohChar, 0, 2] ++ text "xy+X:1\r", List.replicate 60 (.avail 5)⟩).map (·.1) =
      some ((UrcEvent.urcs (typedClient.urcEvents (text "+UEDGI:\"ab\"" ++ [sohChar, 0, 2] ++
        text "xy+X:1\r"))).flatMap fun u => heard (fun _ => true) u.line) ∧
    (UrcEvent.urcs (typedClient.urcEvents (text "+UEDGI:\"ab\"" ++ [sohChar, 0, 2] ++
      text "xy+X:1\r"))).flatMap (fun u => heard (fun _ => true) u.line) =
        [⟨.uedgi, [.str ⟨text "ab", by decide⟩]⟩] :=
  ⟨receiveTyped_heard (fun _ => true) 0 idle_typedClient (List.all_eq_true.1 rfl) (by decide +kernel)
    (by decide +kernel) (by decide +kernel) (by decide +kernel), by decide +kernel⟩

end
