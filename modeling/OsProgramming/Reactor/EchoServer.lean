import OsProgramming.Reactor.SendBuffer

/-! The servers of chapters 27 to 29. Their `on_new_message` moves the input, one
byte at a time and encoded, to a temporary buffer and sends that; the other
callbacks only log. While the block of the input holds a `NUL` where it is printed,
the socket and the output buffer together hold the encoding of what has been
received. -/

namespace OsProgramming.Reactor

open Library Buffer

/-- A `char` beyond ASCII is in no range, whatever its sign. -/
def rot13Char (c : Byte) : Byte :=
  if ('a'.toUInt8 ≤ c ∧ c ≤ 'm'.toUInt8) ∨ ('A'.toUInt8 ≤ c ∧ c ≤ 'M'.toUInt8) then c + 13
  else if ('n'.toUInt8 ≤ c ∧ c ≤ 'z'.toUInt8) ∨ ('N'.toUInt8 ≤ c ∧ c ≤ 'Z'.toUInt8) then c - 13
  else c

/-- The loop of `on_new_message` with `n` bytes to go; `answers` are those of the
allocator to its appends. -/
def encodeInput (answers : ℕ → Alloc Byte) : ℕ → Buffer → Buffer → Result (Buffer × Buffer)
  | 0, input, output => .ok (input, output)
  | n + 1, input, output => do
    let (input, c) ← bufferReadChar input
    let (output, _) ← bufferAppendChar output (rot13Char c) (answers n)
    encodeInput answers n input output

/-- What the environment answers while one readable event is handled: the socket
and the allocator to `buffer_socket_read`, the allocator to `buffer_new` and to
the appends of the loop, the socket and the allocator to the send. -/
structure Reading where
  socket : ReadAnswer
  spill : Alloc Byte
  header : Bool
  block : Alloc Byte
  answers : ℕ → Alloc Byte
  write : WriteAnswer
  rest : Alloc Byte

/-- `yolanda_msgx` with a `%s` for the string of a block: `vsnprintf` reads it up to its `NUL`,
however little of it the message has room for. -/
def yolandaMsgx (block : List Byte) : Result Unit := do
  let _ ← strlen block
  .ok ()

def onNewMessage (cast : ChannelData → Result LoopId) (reading : Reading)
    (connection : TcpConnection) : Result Effect := do
  -- the whole block, not the readable bytes
  yolandaMsgx connection.inputBuffer.data
  match bufferNew reading.header reading.block with
  | none => .error .outOfBounds
  | some output => do
    let size := bufferReadableSize connection.inputBuffer
    let (inputBuffer, output) ← encodeInput reading.answers size.toNat connection.inputBuffer output
    let (effect, _, _) ← tcpConnectionSendBuffer cast { connection with inputBuffer } output
      reading.write reading.rest
    .ok effect

inductive EchoEvent where
  | readable (reading : Reading)
  | writable (socket : WriteAnswer)

/-- One event of the connection, with the callback it invokes. -/
def echoStep (cast : ChannelData → Result LoopId) (connection : TcpConnection) :
    EchoEvent → Result TcpConnection
  | .readable reading => do
    let effect ← handleRead connection reading.socket reading.spill
    match effect.callback with
    | some .onNewMessage => do
      let effect ← onNewMessage cast reading effect.connection
      .ok effect.connection
    | _ => .ok effect.connection
  | .writable socket => do
    let effect ← handleWrite cast connection socket
    .ok effect.connection

/-- The callbacks that the servers pass to `tcp_server_new`. -/
def echoCallbacks : Callbacks := ⟨true, true, true, true⟩

/-! ### The block of the input -/

/-- The cells of the block that a read of `n` bytes leaves as they were, if nothing was
readable: those before and behind the bytes if they fit in the tail; else those before
`write_index` that compacting does not overwrite, or all of them in a larger block. -/
def Buffer.kept (b : Buffer) (n : ℕ) : List Byte :=
  if n ≤ bufferWriteableSize b then
    b.data.take b.writeIndex.toNat ++ b.data.drop (b.writeIndex.toNat + n)
  else if n ≤ b.totalSize then (b.data.take b.writeIndex.toNat).drop n
  else b.data.take b.writeIndex.toNat

/-- The block once the tail of an empty window is full with `xs`, and `rest` is appended. -/
theorem mem_append_full {w : Window Byte} {xs rest : List Byte} {answer : Alloc Byte} {b' : Buffer}
    {done : Bool} (hmax : (w.cells.length : ℤ) ≤ intMax) (hdrained : w.contents = [])
    (hfull : w.hi + xs.length = w.cells.length) (hpos : 0 < rest.length)
    (hrest : (rest.length : ℤ) ≤ intMax)
    (hserved : RoomServed (ofWindow (w.push xs hfull.le)) rest.length answer)
    (happend : bufferAppend (ofWindow (w.push xs hfull.le)) (some rest) rest.length answer =
      .ok (b', done)) (x : Byte) :
    x ∈ b'.data ↔ x ∈ xs ++ rest ∨ x ∈ (ofWindow w).kept (xs ++ rest).length := by
  have hlo : w.lo = w.hi := by
    have hlen := w.length_contents
    have hle := w.lo_le_hi
    rw [hdrained, List.length_nil] at hlen
    omega
  have hcells := w.cells_push hfull
  have hcontents : (w.push xs hfull.le).contents = xs := by
    rw [Window.contents_push, hdrained, List.nil_append]
  have hhi : (w.push xs hfull.le).hi = w.hi + xs.length := rfl
  have hlo₁ : (w.push xs hfull.le).lo = w.hi := hlo
  have hlen : (w.push xs hfull.le).cells.length = w.cells.length := w.length_push xs _
  generalize w.push xs hfull.le = w₁ at *
  have htail : ¬ (rest.length : ℤ) ≤ (w₁.cells.length : ℤ) - w₁.hi := by omega
  have hall : rest.take rest.length = rest := List.take_length
  have hwriteable : ¬ (((xs ++ rest).length : ℕ) : ℤ) ≤ bufferWriteableSize (ofWindow w) := by
    rw [writeableSize_ofWindow, List.length_append]
    omega
  by_cases hspare : (rest.length : ℤ) ≤ (w₁.lo : ℤ) + ((w₁.cells.length : ℤ) - w₁.hi)
  · -- the block is compacted
    have hfits : w₁.compact.hi + (rest.take rest.length).length ≤ w₁.compact.cells.length := by
      rw [hall, Window.length_compact]
      simp only [Window.compact]
      omega
    rw [bufferAppend_of_makeRoom rest (makeRoom_compact answer htail hspare) hpos le_rfl hfits]
      at happend
    cases happend
    have htotal : (((xs ++ rest).length : ℕ) : ℤ) ≤ (ofWindow w).totalSize := by
      rw [List.length_append]
      show _ ≤ (w.cells.length : ℤ)
      omega
    have hdrop : w₁.hi - w₁.lo + rest.length = xs.length + rest.length := by omega
    rw [kept, if_neg hwriteable, if_pos htotal]
    show x ∈ (w₁.compact.push _ hfits).cells ↔ _
    rw [Window.mem_push, hall, w₁.take_compact, w₁.drop_compact, hcontents, hcells, hdrop,
      List.drop_append, List.mem_append, List.mem_append, ← List.length_append]
    have hsub : x ∈ xs.drop ((xs ++ rest).length - (w.cells.take w.hi).length) → x ∈ xs :=
      List.mem_of_mem_drop
    show _ ↔ _ ∨ x ∈ (w.cells.take w.hi).drop _
    tauto
  · -- the block is reallocated
    obtain ⟨more, hmore, -, hroom⟩ := makeRoom_grow htail hspare (by omega) hrest
      (hserved ⟨not_le.mp htail, not_le.mp hspare⟩)
    have hfits : (w₁.grow more).hi + (rest.take rest.length).length ≤
        (w₁.grow more).cells.length := by
      rw [hall]
      simp only [Window.grow, List.length_append]
      omega
    rw [bufferAppend_of_makeRoom rest hroom hpos le_rfl hfits] at happend
    cases happend
    have htotal : ¬ (((xs ++ rest).length : ℕ) : ℤ) ≤ (ofWindow w).totalSize := by
      rw [List.length_append]
      show ¬ _ ≤ (w.cells.length : ℤ)
      omega
    rw [kept, if_neg hwriteable, if_neg htotal]
    show x ∈ ((w₁.grow more).push _ hfits).cells ↔ _ ∨ x ∈ w.cells.take w.hi
    have htake : (w₁.grow more).cells.take (w₁.grow more).hi = w₁.cells := by
      show (w₁.cells ++ more).take w₁.hi = w₁.cells
      rw [List.take_append_of_le_length w₁.hi_le_length, List.take_of_length_le (by omega)]
    have hdrop : (w₁.grow more).cells.drop ((w₁.grow more).hi + rest.length) = [] := by
      apply List.drop_of_length_le
      simp only [Window.grow, List.length_append]
      omega
    rw [Window.mem_push, hall, htake, hdrop, hcells, List.mem_append, List.mem_append]
    simp only [List.not_mem_nil, or_false]
    tauto

/-- The block of the input once a read has delivered. -/
theorem mem_socketRead {b b' : Buffer} {bytes : List Byte} {answer : Alloc Byte} {size : ℤ}
    (hb : b.WellFormed) (hdrained : b.readable = [])
    (hfits : (bytes.length : ℤ) ≤ bufferWriteableSize b + initBufferSize)
    (hserved : SpillServed b (.offered bytes) answer)
    (hread : bufferSocketRead b (.offered bytes) answer = .ok (b', size)) (x : Byte) :
    x ∈ b'.data ↔ x ∈ bytes ∨ x ∈ b.kept bytes.length := by
  have hdelivers := readvDelivers_offered hfits
  by_cases htail : bytes.length ≤ (bufferWriteableSize b).toNat
  · rw [bufferSocketRead_fits answer hb (by rwa [hdelivers]), hdelivers] at hread
    cases hread
    have hle : (bytes.length : ℤ) ≤ bufferWriteableSize b := by
      have := hb.write_le_total
      unfold bufferWriteableSize at *
      omega
    rw [Buffer.kept, if_pos hle]
    simp only [Buffer.tailFilled, List.mem_append]
    tauto
  · have hspill := not_le.mp htail
    obtain ⟨w, rfl, hmax⟩ := hb.exists_window
    have hhi := w.hi_le_length
    rw [bufferSocketRead_spills answer hb (by rwa [hdelivers]), hdelivers] at hread
    have hserved' := hserved (by rwa [hdelivers])
    rw [hdelivers] at hserved'
    simp only [Buffer.writeableSize_ofWindow] at hread hspill hserved' hfits
    set tail := ((w.cells.length : ℤ) - w.hi).toNat with htail
    have hlen : (bytes.drop tail).length = bytes.length - tail := List.length_drop
    have hfull : w.hi + (bytes.take tail).length = w.cells.length := by
      rw [List.length_take, min_eq_left hspill.le]
      omega
    obtain ⟨⟨b'', done⟩, happend, hread⟩ := bind_eq_ok.mp hread
    cases hread
    rw [tailFilled_ofWindow hfull.le, ← hlen] at happend hserved'
    have hmem := mem_append_full hmax hdrained hfull (by omega)
      (by unfold initBufferSize at hfits; unfold intMax; omega) hserved' happend x
    rwa [List.take_append_drop] at hmem

theorem yolandaMsgx_ok {block : List Byte} (h : 0 ∈ block) : yolandaMsgx block = .ok () := by
  simp [yolandaMsgx, strlen, h]

theorem yolandaMsgx_runs_off {block : List Byte} (h : 0 ∉ block) :
    yolandaMsgx block = .error .outOfBounds := by
  simp [yolandaMsgx, strlen, h]

/-! ### One event -/

/-- `make_room` reallocates for one byte only when the block is full of readable
bytes. -/
theorem roomServed_one {b : Buffer} (hb : b.WellFormed) (fill : ℕ → Byte)
    (h : (b.readable.length : ℤ) < intMax) : RoomServed b 1 (some fill) := by
  rintro ⟨hfull, hspare⟩
  obtain ⟨w, rfl, -⟩ := hb.exists_window
  have hlo := w.lo_le_hi
  have hhi := w.hi_le_length
  simp only [Buffer.readable_ofWindow, Window.length_contents, Buffer.writeableSize_ofWindow,
    Buffer.frontSpareSize_ofWindow] at h hfull hspare
  have hsum : (w.cells.length : ℤ) + 1 = ((w.cells.length + 1 : ℕ) : ℤ) := by push_cast; rfl
  have hfit : ((w.cells.length + 1 : ℕ) : ℤ) ≤ intMax := by omega
  have hgrow : realloc w.cells (w.cells.length + 1) (some fill) = _ :=
    realloc_grow fill (by unfold intMax at hfit; unfold ptrdiffMax; omega)
  show (realloc w.cells (toSizeT (wrapInt ((w.cells.length : ℤ) + 1))) (some fill)).isSome = true
  rw [hsum, wrapInt_of_le (by omega) hfit, toSizeT_natCast hfit, hgrow]
  rfl

/-- The loop moves the readable bytes of the input behind those of the output. -/
theorem encodeInput_ok {answers : ℕ → Alloc Byte} (hanswers : ∀ i, (answers i).isSome)
    {input : Buffer} : ∀ {output : Buffer}, input.WellFormed → output.WellFormed →
    ((output.readable.length + input.readable.length : ℕ) : ℤ) ≤ intMax →
    ∃ input' output', encodeInput answers input.readable.length input output =
        .ok (input', output') ∧ input'.WellFormed ∧ output'.WellFormed ∧ input'.readable = [] ∧
      output'.readable = output.readable ++ input.readable.map rot13Char := by
  induction hn : input.readable.length generalizing input with
  | zero =>
    intro output hin hout _
    have hnil := List.length_eq_zero_iff.mp hn
    exact ⟨input, output, rfl, hin, hout, hnil, by simp [hnil]⟩
  | succ n ih =>
    intro output hin hout hmax
    obtain ⟨input₁, c, hread, hin₁, hcons⟩ := bufferReadChar_ok hin
      (by rw [hin.readableSize_eq, hn]; omega)
    obtain ⟨fill, hfill⟩ := Option.isSome_iff_exists.mp (hanswers n)
    obtain ⟨output₁, happend, hout₁, hput⟩ := bufferAppendChar_ok (c := rot13Char c) hout
      (show RoomServed output 1 (answers n) by
        rw [hfill]; exact roomServed_one hout fill (by omega))
    obtain ⟨input', output', hloop, hin', hout', hnil, hall⟩ := ih
      (by rw [hcons, List.length_cons] at hn; omega) hin₁ hout₁
      (by rw [hput, List.length_append, List.length_singleton]; omega)
    refine ⟨input', output', ?_, hin', hout', hnil, ?_⟩
    · simp only [encodeInput, hread, happend, ok_bind, hloop]
    · rw [hall, hput, hcons, List.map_cons, List.append_assoc, List.singleton_append]

/-- What one readable event gives the callback to send. -/
def Reading.message (c : TcpConnection) (reading : Reading) : List Byte :=
  (readvDelivers c.inputBuffer reading.socket).map rot13Char

/-- The read returns data, as much of it as its two vectors hold; no allocation
fails, and the direct write does not fail for good. -/
structure Reading.Admitted (c : TcpConnection) (reading : Reading) : Prop where
  delivers : ∃ bytes, reading.socket = .offered bytes ∧ bytes ≠ [] ∧
    (bytes.length : ℤ) ≤ bufferWriteableSize c.inputBuffer + initBufferSize
  spill : SpillServed c.inputBuffer reading.socket reading.spill
  header : reading.header = true
  block : reading.block.isSome
  answers : ∀ i, (reading.answers i).isSome
  write : reading.write ≠ .failed .epipe ∧ reading.write ≠ .failed .econnreset
  rest : RoomServed c.outputBuffer (((reading.message c).length : ℤ) -
    (directlyTaken c (reading.message c) reading.write).length) reading.rest

/-- Where `on_new_message` prints it, the block of the input holds a `NUL`: one of the bytes
that arrive, or one in a cell that the read leaves as it was. -/
def EchoEvent.Printable (c : TcpConnection) : EchoEvent → Prop
  | .readable reading =>
    let bytes := readvDelivers c.inputBuffer reading.socket
    0 ∈ bytes ∨ 0 ∈ c.inputBuffer.kept bytes.length
  | .writable _ => True

/-- The bytes that the socket has for a readable event. -/
def Reading.offered (reading : Reading) : List Byte :=
  match reading.socket with
  | .failed _ => []
  | .offered bytes => bytes

/-- What a server has received, and what it transmits. -/
structure Echo where
  received : List Byte
  outgoing : Outgoing

def Echo.step (e : Echo) : EchoEvent → Echo
  | .readable reading => ⟨e.received ++ reading.offered,
      e.outgoing.send (reading.offered.map rot13Char) reading.write⟩
  | .writable socket => { e with outgoing := e.outgoing.flush socket }

def EchoEvent.Admitted (c : TcpConnection) : EchoEvent → Prop
  | .readable reading => reading.Admitted c
  | .writable _ => True

/-- Between two events of the connection that was `c₀` at its start. -/
structure EchoInv (c₀ c : TcpConnection) : Prop where
  output : OutputInv c (c.stream.received.map rot13Char)
  input : c.inputBuffer.WellFormed
  drained : c.inputBuffer.readable = []
  data : c.channel.data = c₀.channel.data
  callbacks : c.callbacks = echoCallbacks

/-- A step of the output path keeps the rest. -/
theorem EchoInv.of_outputOnly {c₀ c c' : TcpConnection} (honly : OutputOnly c c')
    (hout : OutputInv c' (c.stream.received.map rot13Char)) (hin : c.inputBuffer.WellFormed)
    (hdrained : c.inputBuffer.readable = []) (hdata : c.channel.data = c₀.channel.data)
    (hcallbacks : c.callbacks = echoCallbacks) : EchoInv c₀ c' where
  output := by
    rw [honly.received]
    exact hout
  input := by
    rw [honly.inputBuffer]
    exact hin
  drained := by
    rw [honly.inputBuffer]
    exact hdrained
  data := honly.channel_data.trans hdata
  callbacks := honly.callbacks.trans hcallbacks

/-- Reading leaves the output path as it is. -/
theorem OutputInv.of_reading {c : TcpConnection} {handed received : List Byte} {input : Buffer}
    (h : OutputInv c handed) : OutputInv
      { c with inputBuffer := input, stream := ⟨received, c.stream.accepted⟩ } handed :=
  ⟨h.wellFormed, h.queued, h.interest⟩

/-- `on_new_message` empties the input and hands its encoding over, if it gets past its print. -/
theorem onNewMessage_ok (cast : ChannelData → Result LoopId) {c : TcpConnection} {loop : LoopId}
    {reading : Reading} {handed : List Byte} (hinv : OutputInv c handed)
    (hinput : c.inputBuffer.WellFormed) (hnul : 0 ∈ c.inputBuffer.data)
    (hcast : cast c.channel.data = .ok loop)
    (hheader : reading.header = true) (hblock : reading.block.isSome)
    (hanswers : ∀ i, (reading.answers i).isSome)
    (hwrite : reading.write ≠ .failed .epipe ∧ reading.write ≠ .failed .econnreset)
    (hrest : RoomServed c.outputBuffer (((c.inputBuffer.readable.map rot13Char).length : ℤ) -
      (directlyTaken c (c.inputBuffer.readable.map rot13Char) reading.write).length)
      reading.rest) :
    ∃ effect input, onNewMessage cast reading c = .ok effect ∧ input.WellFormed ∧
      input.readable = [] ∧ OutputOnly { c with inputBuffer := input } effect.connection ∧
      OutputInv effect.connection (handed ++ c.inputBuffer.readable.map rot13Char) ∧
      effect.connection.stream.accepted = c.stream.accepted ++
        directlyTaken c (c.inputBuffer.readable.map rot13Char) reading.write := by
  obtain ⟨fill, hfill⟩ := Option.isSome_iff_exists.mp hblock
  obtain ⟨output, hnew, hout, hempty, -⟩ := bufferNew_readable fill
  obtain ⟨-, -, hmax⟩ := hinput.take_drop
  obtain ⟨input, output', hloop, hin', hout', hdrained, hall⟩ := encodeInput_ok hanswers hinput hout
    (by rw [hempty, List.length_nil, Nat.zero_add]; exact hmax)
  rw [hempty, List.nil_append] at hall
  have hfault : ¬ SendFaults { c with inputBuffer := input } reading.write :=
    fun h => h.2.elim hwrite.1 hwrite.2
  obtain ⟨effect, source', n, hsend, hinv', honly⟩ := sendBuffer_ok cast
    (c := { c with inputBuffer := input })
    ⟨hinv.wellFormed, hinv.queued, hinv.interest⟩ hcast hfault hout' (by rw [hall]; exact hrest)
  obtain ⟨-, -, haccepted, -⟩ := sendBuffer_returns (by exact hinv.wellFormed) hout' hsend
  rw [hall] at hinv' haccepted
  refine ⟨effect, input, ?_, hin', hdrained, honly, hinv', haccepted⟩
  simp only [onNewMessage, yolandaMsgx_ok hnul, hheader, hfill, hnew, hinput.readableSize_eq,
    Int.toNat_natCast, hloop, ok_bind, hsend]

/-- The read of a readable event, up to the callback. -/
theorem handleRead_ok {c₀ c : TcpConnection} {reading : Reading} (hinv : EchoInv c₀ c)
    (hadm : reading.Admitted c) :
    ∃ input, handleRead c reading.socket reading.spill = .ok ⟨{ c with
        inputBuffer := input
        stream := { c.stream with received := c.stream.received ++ reading.offered } }, [],
        some .onNewMessage⟩ ∧
      input.WellFormed ∧ input.readable = reading.offered ∧
      reading.message c = reading.offered.map rot13Char ∧
      (0 ∈ input.data ↔ (EchoEvent.readable reading).Printable c) := by
  obtain ⟨bytes, hsocket, hne, hfits⟩ := hadm.delivers
  have hoffered : reading.offered = bytes := by rw [Reading.offered, hsocket]
  have hdelivers : readvDelivers c.inputBuffer reading.socket = bytes := by
    rw [hsocket]
    exact readvDelivers_offered hfits
  have hspill := hadm.spill
  obtain ⟨input, hread, hin, hput⟩ := bufferSocketRead_ok hinv.input (hsocket ▸ hspill)
  have hcells := mem_socketRead hinv.input hinv.drained hfits (hsocket ▸ hspill) hread 0
  rw [← hsocket, hdelivers] at hread hput
  rw [hinv.drained, List.nil_append] at hput
  have hpos : (0 : ℤ) < bytes.length := by
    have := List.length_pos_iff.mpr hne
    omega
  have hset : c.callbacks.onNewMessage = true := by rw [hinv.callbacks]; rfl
  refine ⟨input, ?_, hin, hput.trans hoffered.symm, ?_, ?_⟩
  · simp only [handleRead, hread, ok_bind, hdelivers, hpos, hset, ↓reduceIte, hoffered]
  · rw [Reading.message, hdelivers, hoffered]
  · simp only [EchoEvent.Printable, hdelivers]
    exact hcells

theorem echoStep_ok {cast : ChannelData → Result LoopId} {c₀ : TcpConnection} {loop : LoopId}
    (hcast : cast c₀.channel.data = .ok loop) (c : TcpConnection) (e : Echo) (event : EchoEvent)
    (h : EchoInv c₀ c ∧ c.stream.received = e.received ∧ c.Carries e.outgoing)
    (hadm : event.Admitted c ∧ event.Printable c) :
    ∃ c', echoStep cast c event = .ok c' ∧ EchoInv c₀ c' ∧
      c'.stream.received = (e.step event).received ∧ c'.Carries (e.step event).outgoing := by
  obtain ⟨hinv, hreceived, hcarries⟩ := h
  obtain ⟨hout, hin, hdrained, hdata, hcallbacks⟩ := id hinv
  have hcast' : cast c.channel.data = .ok loop := by rw [hdata, hcast]
  cases event with
  | readable reading =>
    obtain ⟨hadm, hprintable⟩ := hadm
    obtain ⟨input, hhandle, hin', hput, hmessage, hnul⟩ := handleRead_ok hinv hadm
    set c₁ : TcpConnection := { c with
      inputBuffer := input
      stream := { c.stream with received := c.stream.received ++ reading.offered } }
    have hrest := hadm.rest
    rw [hmessage] at hrest
    obtain ⟨effect, input', hcalled, hin'', hdrained', honly, hout', haccepted⟩ :=
      onNewMessage_ok cast (c := c₁) hout.of_reading hin' (hnul.mpr hprintable) hcast' hadm.header
        hadm.block hadm.answers hadm.write (by rw [hput]; exact hrest)
    have hfault : ¬ SendFaults c₁ reading.write := fun h => h.2.elim hadm.write.1 hadm.write.2
    have hcarries₁ : c₁.Carries e.outgoing := ⟨hcarries.accepted, hcarries.readable⟩
    rw [hput] at hout' haccepted
    have hcarries' := hcarries₁.send hout.of_reading hfault hout' haccepted
    rw [← List.map_append] at hout'
    refine ⟨effect.connection, ?_, .of_outputOnly honly hout' hin'' hdrained' hdata hcallbacks, ?_,
      hcarries'⟩
    · simp only [echoStep, hhandle, ok_bind, hcalled]
    · rw [honly.received, Echo.step, ← hreceived]
  | writable socket =>
    obtain ⟨effect, hwrite, hout', honly⟩ := handleWrite_ok cast socket hout hcast'
    refine ⟨effect.connection, ?_, .of_outputOnly honly hout' hin hdrained hdata hcallbacks, ?_,
      hcarries.flush hout.wellFormed hwrite⟩
    · simp only [echoStep, hwrite, ok_bind]
    · rw [honly.received, Echo.step, hreceived]

/-- A print that finds no `NUL` leaves the block before anything is encoded. -/
theorem echoStep_runs_off {cast : ChannelData → Result LoopId} {c₀ c : TcpConnection}
    {event : EchoEvent} (hinv : EchoInv c₀ c) (hadm : event.Admitted c)
    (hprintable : ¬ event.Printable c) : echoStep cast c event = .error .outOfBounds := by
  cases event with
  | readable reading =>
    obtain ⟨input, hhandle, -, -, -, hnul⟩ := handleRead_ok hinv hadm
    have hnone : 0 ∉ input.data := hnul.not.mpr hprintable
    simp only [echoStep, hhandle, ok_bind, onNewMessage, yolandaMsgx_runs_off hnone, error_bind]
  | writable socket => exact absurd trivial hprintable

/-! ### Runs -/

/-- The server has received what its socket had, the socket has taken what the calls of
`write` have given it and the rest is queued, both together encode what has been received,
and no input is left over. -/
structure Echoes (c : TcpConnection) (e : Echo) : Prop where
  received : c.stream.received = e.received
  carries : c.Carries e.outgoing
  encoded : c.stream.accepted ++ c.outputBuffer.readable = c.stream.received.map rot13Char
  drained : c.inputBuffer.readable = []

theorem echoInv_new {id : ConnectionId} {fd : ℤ} {loop : LoopId} {input output : ℕ → Byte}
    {c₀ : TcpConnection}
    (hnew : tcpConnectionNew id fd loop echoCallbacks (some input) (some output) = some c₀) :
    EchoInv c₀ c₀ ∧ c₀.stream.received = [] ∧ c₀.Carries ⟨[], []⟩ ∧
      c₀.channel.data = .tcpConnection id := by
  obtain ⟨hout, hin, hdrained, -, -, hstream, hcallbacks, -, hchannel⟩ := outputInv_new hnew
  exact ⟨⟨by rw [hstream]; exact hout, hin, hdrained, rfl, hcallbacks⟩, by rw [hstream],
    .of_accepted hout (by rw [hstream]) rfl, by rw [hchannel]; rfl⟩

/-- After a run of readable and writable events the server has echoed what it has received
if and only if every print of the run has found a `NUL` in the block of the input. -/
theorem echo_fidelity (cast : ChannelData → Result LoopId) {id : ConnectionId} {fd : ℤ}
    {loop : LoopId} {input output : ℕ → Byte} {c₀ : TcpConnection}
    (hnew : tcpConnectionNew id fd loop echoCallbacks (some input) (some output) = some c₀)
    (hcast : cast (.tcpConnection id) = .ok loop) (events : List EchoEvent)
    (hadm : Admissible (echoStep cast) (fun c event => event.Admitted c) c₀ events) :
    (∃ c, events.foldlM (echoStep cast) c₀ = .ok c ∧
      Echoes c (events.foldl Echo.step ⟨[], ⟨[], []⟩⟩)) ↔
    Admissible (echoStep cast) (fun c event => event.Printable c) c₀ events := by
  obtain ⟨hinv, hreceived, hcarries, hdata⟩ := echoInv_new hnew
  have hcast₀ : cast c₀.channel.data = .ok loop := by rw [hdata]; exact hcast
  constructor
  · rintro ⟨c, hc, -⟩
    have hok (c : TcpConnection) (event : EchoEvent) (hinv : EchoInv c₀ c)
        (hadm : event.Admitted c) (hprintable : event.Printable c) :
        ∃ c', echoStep cast c event = .ok c' ∧ EchoInv c₀ c' := by
      obtain ⟨c', hc', hinv', -⟩ := echoStep_ok hcast₀ c ⟨_, ⟨_, _⟩⟩ event
        ⟨hinv, rfl, ⟨rfl, rfl⟩⟩ ⟨hadm, hprintable⟩
      exact ⟨c', hc', hinv'⟩
    rcases foldlM_ok_or_error hok (fun _ _ => echoStep_runs_off) hinv hadm with
      ⟨hprintable, -⟩ | ⟨-, hfault⟩
    · exact hprintable
    · cases hc.symm.trans hfault
  · intro hprintable
    obtain ⟨c, hc, hinv', hreceived', hcarries'⟩ := foldlM_simulates (echoStep_ok hcast₀)
      (t := ⟨[], ⟨[], []⟩⟩) ⟨hinv, hreceived, hcarries⟩ (hadm.and hprintable)
    exact ⟨c, hc, hreceived', hcarries', hinv'.output.queued, hinv'.drained⟩

/-- A read into a new block leaves the zeros behind what it delivers. -/
theorem kept_new {id : ConnectionId} {fd : ℤ} {loop : LoopId} {callbacks : Callbacks}
    {output : Alloc Byte} {c₀ : TcpConnection} {n : ℕ}
    (hnew : tcpConnectionNew id fd loop callbacks (some fun _ => 0) output = some c₀)
    (hn : n ≤ initBufferSize) :
    c₀.inputBuffer.kept n = List.replicate (initBufferSize - n) 0 := by
  have hinput : c₀.inputBuffer =
      ⟨malloc initBufferSize (some fun _ => 0), 0, 0, initBufferSize⟩ := by
    simp only [tcpConnectionNew, bufferNew, ↓reduceIte, Option.bind_eq_bind, Option.bind_some,
      Option.some.injEq] at hnew
    rw [← hnew]
  have hzeros : (List.range initBufferSize).map (fun _ => (0 : Byte)) =
      List.replicate initBufferSize 0 := by
    rw [List.map_const', List.length_range]
  rw [hinput]
  simp [Buffer.kept, bufferWriteableSize, malloc, hn, hzeros]

/-- The only byte of a message, and a socket that is full at first. -/
def deferredReading : Reading :=
  ⟨.offered ['a'.toUInt8], none, true, some fun _ => 0, fun _ => some fun _ => 0,
    .failed .ewouldblock, none⟩

/-- One byte arrives while the socket is full, and is written later. -/
theorem echo_fidelity_deferred :
    ∃ c₀ c, tcpConnectionNew 0 5 0 echoCallbacks (some fun _ => 0) (some fun _ => 0) = some c₀ ∧
      [.readable deferredReading, .writable (.accepts 1)].foldlM (echoStep fun _ => .ok 0) c₀ =
        .ok c ∧
      c.stream.received = ['a'.toUInt8] ∧ c.stream.accepted = ['n'.toUInt8] ∧
      c.outputBuffer.readable = [] ∧ c.inputBuffer.readable = [] := by
  obtain ⟨c₀, hnew⟩ : ∃ c₀, tcpConnectionNew 0 5 0 echoCallbacks (some fun _ => 0)
      (some fun _ => 0) = some c₀ := ⟨_, rfl⟩
  obtain ⟨-, -, -, hsize, hroom, -⟩ := outputInv_new hnew
  have hdelivers : readvDelivers c₀.inputBuffer (.offered ['a'.toUInt8]) = ['a'.toUInt8] :=
    readvDelivers_offered (by rw [hsize]; decide)
  have hadm : EchoEvent.Admitted c₀ (.readable deferredReading) := by
    refine ⟨⟨_, rfl, by decide, by rw [hsize]; decide⟩, ?_, rfl, rfl, fun _ => rfl,
      ⟨by decide, by decide⟩, roomServed_of_le none ?_⟩
    · rw [deferredReading, SpillServed, hdelivers, hsize]
      intro h
      simp [initBufferSize] at h
    · rw [Reading.message, deferredReading, hdelivers, hroom]
      show (1 : ℤ) - _ ≤ _
      unfold initBufferSize
      omega
  have hprintable : EchoEvent.Printable c₀ (.readable deferredReading) := by
    right
    rw [deferredReading, hdelivers, kept_new hnew (by decide)]
    exact List.mem_replicate.mpr ⟨by decide, rfl⟩
  obtain ⟨c, hc, hechoes⟩ := (echo_fidelity (fun _ => .ok 0) hnew rfl
    [.readable deferredReading, .writable (.accepts 1)]
    ⟨hadm, fun _ _ => ⟨trivial, fun _ _ => trivial⟩⟩).mpr
    ⟨hprintable, fun _ _ => ⟨trivial, fun _ _ => trivial⟩⟩
  exact ⟨c₀, c, hnew, hc, hechoes.received, hechoes.carries.accepted, hechoes.carries.readable,
    hechoes.drained⟩

/-- A first message that is as long as the block, without a `NUL`. -/
def fullReading : Reading :=
  ⟨.offered (List.replicate initBufferSize 'a'.toUInt8), none, true, some fun _ => 0,
    fun _ => some fun _ => 0, .accepts initBufferSize, none⟩

/-- It is printed past the end of the block, and nothing of it is echoed. -/
theorem echo_fidelity_runs_off :
    ∃ c₀, tcpConnectionNew 0 5 0 echoCallbacks (some fun _ => 0) (some fun _ => 0) = some c₀ ∧
      EchoEvent.Admitted c₀ (.readable fullReading) ∧
      [.readable fullReading].foldlM (echoStep fun _ => .ok 0) c₀ = .error .outOfBounds := by
  obtain ⟨c₀, hnew⟩ : ∃ c₀, tcpConnectionNew 0 5 0 echoCallbacks (some fun _ => 0)
      (some fun _ => 0) = some c₀ := ⟨_, rfl⟩
  obtain ⟨hinv, -⟩ := echoInv_new hnew
  obtain ⟨-, -, -, hsize, hroom, -⟩ := outputInv_new hnew
  have hlen : (List.replicate initBufferSize 'a'.toUInt8).length = initBufferSize :=
    List.length_replicate
  have hdelivers : readvDelivers c₀.inputBuffer
      (.offered (List.replicate initBufferSize 'a'.toUInt8)) =
      List.replicate initBufferSize 'a'.toUInt8 :=
    readvDelivers_offered (by rw [hsize, hlen]; omega)
  have hadm : EchoEvent.Admitted c₀ (.readable fullReading) := by
    refine ⟨⟨_, rfl, ?_, by rw [hsize, hlen]; omega⟩, ?_, rfl, rfl, fun _ => rfl,
      ⟨nofun, nofun⟩, roomServed_of_le none ?_⟩
    · rw [ne_eq, List.replicate_eq_nil_iff]
      exact Nat.succ_ne_zero _
    · rw [fullReading, SpillServed, hdelivers, hsize, hlen]
      intro h
      simp at h
    · rw [Reading.message, fullReading, hdelivers, hroom, List.length_map, hlen]
      omega
  have hprintable : ¬ EchoEvent.Printable c₀ (.readable fullReading) := by
    have hletter : 0 ≠ 'a'.toUInt8 := by decide
    simp only [fullReading, EchoEvent.Printable, hdelivers, hlen, kept_new hnew le_rfl,
      Nat.sub_self, List.replicate_zero, List.not_mem_nil, or_false, List.mem_replicate]
    exact fun h => hletter h.2
  have hfault : echoStep (fun _ => .ok 0) c₀ (.readable fullReading) = .error .outOfBounds :=
    echoStep_runs_off hinv hadm hprintable
  exact ⟨c₀, hnew, hadm, by rw [List.foldlM_cons, hfault, error_bind]⟩

end OsProgramming.Reactor
