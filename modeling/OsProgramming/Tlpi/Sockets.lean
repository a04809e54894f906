import OsProgramming.Library.Descriptors
import OsProgramming.Library.Text

/-! The functions that make a socket in one call: `inet_sockets.c` tries the addresses that
`getaddrinfo` has found one after the other, `unix_sockets.c` has one path. -/

namespace OsProgramming.Tlpi

open Library

inductive SocketState (A : Type) where
  | fresh
  | connected (address : A)
  | bound (address : A)
  | listening (address : A) (backlog : ℤ)
  deriving DecidableEq

/-- What a descriptor refers to. -/
inductive Endpoint (A : Type) where
  | socket (reuseAddr : Bool) (state : SocketState A)
  /-- what the caller had open before -/
  | other (file : ℕ)
  deriving DecidableEq

variable {A : Type}

/-- A call that changes a socket. -/
def setSocket (p : Files (Endpoint A)) (fd : ℕ) (endpoint : Endpoint A) : Files (Endpoint A) :=
  { p with descriptors := Function.update p.descriptors fd (some endpoint) }

/-! ### `inet_sockets.c` -/

/-- An address that `getaddrinfo` has found, and what the kernel answers to the calls for it. -/
structure AddrInfo (A : Type) where
  addr : A
  addrlen : ℕ
  socket : Except ℕ Unit
  setsockopt : Except ℕ Unit
  bind : Except ℕ Unit
  connect : Except ℕ Unit
  listen : Except ℕ Unit
  /-- what `close` leaves in `errno` -/
  closing : Option ℕ

def enosys : ℕ := 38

/-- The loop of `inetConnect`. -/
def connectFirst (p : Files (Endpoint A)) : List (AddrInfo A) → Files (Endpoint A) × Option ℕ
  | [] => (p, none)
  | rp :: rest =>
    match p.new (rp.socket.map fun _ => .socket false .fresh) with
    | .error p => connectFirst p rest
    | .ok (sfd, p) =>
      match p.call rp.connect with
      | .ok _ => (setSocket p sfd (.socket false (.connected rp.addr)), some sfd)
      | .error p => connectFirst (p.close sfd rp.closing) rest

/-- `getaddrinfo` does not use `errno`. The descriptor is `none` where the source returns -1. -/
def inetConnect (p : Files (Endpoint A)) (getaddrinfo : Except Unit (List (AddrInfo A))) :
    Files (Endpoint A) × Option ℕ :=
  match getaddrinfo with
  | .error _ => ({ p with errno := enosys }, none)
  | .ok result => connectFirst p result

/-- The loop of `inetPassiveSocket`, which an error of `setsockopt` ends at once. -/
def bindFirst (p : Files (Endpoint A)) (doListen : Bool) :
    List (AddrInfo A) → Files (Endpoint A) × Option (AddrInfo A × ℕ)
  | [] => (p, none)
  | rp :: rest =>
    match p.new (rp.socket.map fun _ => .socket false .fresh) with
    | .error p => bindFirst p doListen rest
    | .ok (sfd, p) =>
      match if doListen then p.call rp.setsockopt else .ok () with
      | .error p => (p.close sfd rp.closing, none)
      | .ok _ =>
        let p := setSocket p sfd (.socket doListen .fresh)
        match p.call rp.bind with
        | .ok _ => (setSocket p sfd (.socket doListen (.bound rp.addr)), some (rp, sfd))
        | .error p => bindFirst (p.close sfd rp.closing) doListen rest

/-- The descriptor, and what is stored in `addrlen`. -/
def inetPassiveSocket (p : Files (Endpoint A)) (getaddrinfo : Except Unit (List (AddrInfo A)))
    (doListen : Bool) (backlog : ℤ) : Files (Endpoint A) × Option (ℕ × ℕ) :=
  match getaddrinfo with
  | .error _ => (p, none)
  | .ok result =>
    match bindFirst p doListen result with
    | (p, none) => (p, none)
    | (p, some (rp, sfd)) =>
      if doListen then
        match p.call rp.listen with
        | .error p => (p, none)
        | .ok _ => (setSocket p sfd (.socket true (.listening rp.addr backlog)), some (sfd, rp.addrlen))
      else (p, some (sfd, rp.addrlen))

def inetListen (p : Files (Endpoint A)) (getaddrinfo : Except Unit (List (AddrInfo A))) (backlog : ℤ) :
    Files (Endpoint A) × Option (ℕ × ℕ) :=
  inetPassiveSocket p getaddrinfo true backlog

def inetBind (p : Files (Endpoint A)) (getaddrinfo : Except Unit (List (AddrInfo A))) :
    Files (Endpoint A) × Option (ℕ × ℕ) :=
  inetPassiveSocket p getaddrinfo false 0

/-! ### `unix_sockets.c` -/

def einval : ℕ := 22

def enametoolong : ℕ := 36

/-- The size of `sun_path`. -/
def sunPath : ℕ := 108

/-- What the function leaves in `sun_path`; `path` may be `NULL`. -/
def unixBuildAddress (path : Option (List UInt8)) : Except ℕ (List UInt8) :=
  match path with
  | none => .error einval
  | some path =>
    if sunPath - 1 ≤ (cString 0 path).length then .error einval
    else if (cString 0 path).length < sunPath then
      .ok (strncpy 0 (sunPath - 1) path ++ (List.replicate sunPath 0).drop (sunPath - 1))
    else .error enametoolong

/-- What the kernel answers to the calls for a path. -/
structure UnixCalls where
  socket : Except ℕ Unit
  bind : Except ℕ Unit
  connect : Except ℕ Unit
  listen : Except ℕ Unit
  closing : Option ℕ

def unixConnect (p : Files (Endpoint (List UInt8))) (calls : UnixCalls) (path : Option (List UInt8)) :
    Except (Files (Endpoint (List UInt8))) (ℕ × Files (Endpoint (List UInt8))) := do
  let addr ← p.call (unixBuildAddress path)
  let (sd, p) ← p.new (calls.socket.map fun _ => .socket false .fresh)
  p.callOrClose calls.connect sd calls.closing
  .ok (sd, setSocket p sd (.socket false (.connected (cString 0 addr))))

def unixPassiveSocket (p : Files (Endpoint (List UInt8))) (calls : UnixCalls)
    (path : Option (List UInt8)) (doListen : Bool) (backlog : ℤ) :
    Except (Files (Endpoint (List UInt8))) (ℕ × Files (Endpoint (List UInt8))) := do
  let addr ← p.call (unixBuildAddress path)
  let (sd, p) ← p.new (calls.socket.map fun _ => .socket false .fresh)
  p.callOrClose calls.bind sd calls.closing
  let p := setSocket p sd (.socket false (.bound (cString 0 addr)))
  if doListen then
    p.callOrClose calls.listen sd calls.closing
    .ok (sd, setSocket p sd (.socket false (.listening (cString 0 addr) backlog)))
  else .ok (sd, p)

def unixListen (p : Files (Endpoint (List UInt8))) (calls : UnixCalls) (path : Option (List UInt8))
    (backlog : ℤ) : Except (Files (Endpoint (List UInt8))) (ℕ × Files (Endpoint (List UInt8))) :=
  unixPassiveSocket p calls path true backlog

def unixBind (p : Files (Endpoint (List UInt8))) (calls : UnixCalls) (path : Option (List UInt8)) :
    Except (Files (Endpoint (List UInt8))) (ℕ × Files (Endpoint (List UInt8))) :=
  unixPassiveSocket p calls path false 0

/-! ### The descriptors that `inet_sockets.c` leaves open -/

def AddrInfo.connects (rp : AddrInfo A) : Bool :=
  (failure rp.socket).isNone && (failure rp.connect).isNone

/-- The loop of `inetPassiveSocket` ends with this address. -/
def AddrInfo.ends (doListen : Bool) (rp : AddrInfo A) : Bool :=
  (failure rp.socket).isNone &&
    (doListen && (failure rp.setsockopt).isSome || (failure rp.bind).isNone)

section Inet

variable {p : Files (Endpoint A)} {rp : AddrInfo A} {result : List (AddrInfo A)}

/-- What a function returns, and the descriptors that it leaves. -/
def Leaves {R : Type} (outcome : Files (Endpoint A) × Option R) (returned : Option R)
    (descriptors : ℕ → Option (Endpoint A)) : Prop :=
  outcome.2 = returned ∧ outcome.1.descriptors = descriptors

theorem opened_set {q : Files (Endpoint A)} {endpoint : Endpoint A} {fd : ℕ}
    (h : Opened p endpoint fd q) (endpoint' : Endpoint A) :
    Opened p endpoint' fd (setSocket q fd endpoint') where
  lowest := h.lowest
  limit := h.limit
  descriptors := by simp only [setSocket, h.descriptors, Function.update_idem]

/-- The call of `socket` for an address. -/
theorem AddrInfo.socket_cases (p : Files (Endpoint A)) (rp : AddrInfo A) :
    (∃ errno, p.new (rp.socket.map fun _ => .socket false .fresh) = .error { p with errno } ∧
      ((failure rp.socket).isNone = false ∨ lowestFree p.limit p.descriptors = none)) ∨
    ∃ fd q, failure rp.socket = none ∧
      p.new (rp.socket.map fun _ => .socket false .fresh) = .ok (fd, q) ∧
      Opened p (.socket false .fresh) fd q := by
  rcases p.new_cases (rp.socket.map fun _ => .socket false .fresh) with
    ⟨errno, hnew, hwhy⟩ | ⟨file, fd, q, hfile, hnew, hopened⟩
  · refine .inl ⟨errno, hnew, ?_⟩
    rcases hwhy with hfailure | ⟨-, hlowest, -⟩
    · rw [failure_map] at hfailure
      exact .inl (by rw [hfailure]; rfl)
    · exact .inr hlowest
  · obtain ⟨hsocket, rfl⟩ := map_const_eq_ok hfile
    exact .inr ⟨fd, q, hsocket, hnew, hopened⟩

/-- One address is taken, or the next is tried with the descriptors from before. -/
theorem connectFirst_cons (p : Files (Endpoint A)) (rp : AddrInfo A) (rest : List (AddrInfo A)) :
    (∃ fd, rp.connects = true ∧ lowestFree p.limit p.descriptors = some fd ∧
      Leaves (connectFirst p (rp :: rest)) (some fd)
        (Function.update p.descriptors fd (some (.socket false (.connected rp.addr))))) ∨
    (rp.connects = false ∨ lowestFree p.limit p.descriptors = none) ∧
      ∃ errno, connectFirst p (rp :: rest) = connectFirst { p with errno } rest := by
  rw [connectFirst]
  rcases rp.socket_cases p with ⟨errno, hnew, hwhy⟩ | ⟨fd, q, hsocket, hnew, hopened⟩
  · rw [hnew]
    refine .inr ⟨hwhy.imp_left fun hfails => ?_, errno, rfl⟩
    rw [AddrInfo.connects, hfails, Bool.false_and]
  · rw [hnew]
    cases hconnect : rp.connect with
    | ok u =>
      exact .inl ⟨fd, by simp [AddrInfo.connects, hsocket, hconnect], hopened.lowest, rfl,
        (opened_set hopened _).descriptors⟩
    | error errno =>
      refine .inr ⟨.inl (by simp [AddrInfo.connects, hconnect]), rp.closing.getD errno, ?_⟩
      exact congrArg (connectFirst · rest) (hopened.undone errno rp.closing)

/-- The first address that can be connected is, with the lowest free descriptor, and nothing else
changes. -/
theorem connectFirst_leaves (p : Files (Endpoint A)) (result : List (AddrInfo A)) :
    match lowestFree p.limit p.descriptors, result.find? AddrInfo.connects with
    | some fd, some rp => Leaves (connectFirst p result) (some fd)
        (Function.update p.descriptors fd (some (.socket false (.connected rp.addr))))
    | _, _ => Leaves (connectFirst p result) none p.descriptors := by
  induction result generalizing p with
  | nil => cases lowestFree p.limit p.descriptors <;> exact ⟨rfl, rfl⟩
  | cons rp rest ih =>
    rcases connectFirst_cons p rp rest with ⟨fd, hconnects, hlowest, hleaves⟩ | ⟨hnot, errno, heq⟩
    · rw [hlowest, List.find?_cons_of_pos hconnects]
      exact hleaves
    · have hrest := ih { p with errno }
      rw [heq]
      rcases hnot with hnot | hnot
      · rwa [List.find?_cons_of_neg (by simp [hnot])]
      · simp only [hnot] at hrest ⊢
        exact hrest

/-- The same for the loop of `inetPassiveSocket`. -/
theorem bindFirst_cons (p : Files (Endpoint A)) (doListen : Bool) (rp : AddrInfo A)
    (rest : List (AddrInfo A)) :
    (∃ fd, rp.ends doListen = true ∧ lowestFree p.limit p.descriptors = some fd ∧
      if doListen = true ∧ failure rp.setsockopt ≠ none then
        Leaves (bindFirst p doListen (rp :: rest)) none p.descriptors
      else Leaves (bindFirst p doListen (rp :: rest)) (some (rp, fd))
        (Function.update p.descriptors fd (some (.socket doListen (.bound rp.addr))))) ∨
    (rp.ends doListen = false ∨ lowestFree p.limit p.descriptors = none) ∧
      ∃ errno, bindFirst p doListen (rp :: rest) = bindFirst { p with errno } doListen rest := by
  rw [bindFirst]
  rcases rp.socket_cases p with ⟨errno, hnew, hwhy⟩ | ⟨fd, q, hsocket, hnew, hopened⟩
  · rw [hnew]
    refine .inr ⟨hwhy.imp_left fun hfails => ?_, errno, rfl⟩
    rw [AddrInfo.ends, hfails, Bool.false_and]
  · rw [hnew]
    dsimp only
    have hfresh := opened_set hopened (.socket doListen .fresh)
    cases hset : (if doListen then q.call rp.setsockopt else .ok ()) with
    | error q' =>
      dsimp only
      obtain ⟨rfl, errno, hsetsockopt, rfl⟩ : doListen = true ∧ ∃ errno,
          rp.setsockopt = .error errno ∧ q' = { q with errno } := by
        cases doListen <;> cases hsetsockopt : rp.setsockopt <;> simp_all
      refine .inl ⟨fd, by simp [AddrInfo.ends, hsocket, hsetsockopt], hopened.lowest, ?_⟩
      rw [if_pos ⟨rfl, by simp [hsetsockopt]⟩, hopened.undone]
      exact ⟨rfl, rfl⟩
    | ok u =>
      dsimp only
      have hnot : ¬(doListen = true ∧ failure rp.setsockopt ≠ none) := by
        rintro ⟨rfl, hfailure⟩
        cases hsetsockopt : rp.setsockopt <;> simp_all
      cases hbind : rp.bind with
      | ok u =>
        refine .inl ⟨fd, by simp [AddrInfo.ends, hsocket, hbind], hopened.lowest, ?_⟩
        rw [if_neg hnot]
        exact ⟨rfl, (opened_set hfresh _).descriptors⟩
      | error errno =>
        have hends : rp.ends doListen = false := by
          cases doListen <;> simp_all [AddrInfo.ends]
        refine .inr ⟨.inl hends, rp.closing.getD errno, ?_⟩
        exact congrArg (bindFirst · doListen rest) (hfresh.undone errno rp.closing)

theorem bindFirst_leaves (p : Files (Endpoint A)) (doListen : Bool) (result : List (AddrInfo A)) :
    match lowestFree p.limit p.descriptors, result.find? (AddrInfo.ends doListen) with
    | some fd, some rp =>
      if doListen = true ∧ failure rp.setsockopt ≠ none then
        Leaves (bindFirst p doListen result) none p.descriptors
      else Leaves (bindFirst p doListen result) (some (rp, fd))
        (Function.update p.descriptors fd (some (.socket doListen (.bound rp.addr))))
    | _, _ => Leaves (bindFirst p doListen result) none p.descriptors := by
  induction result generalizing p with
  | nil => cases lowestFree p.limit p.descriptors <;> exact ⟨rfl, rfl⟩
  | cons rp rest ih =>
    rcases bindFirst_cons p doListen rp rest with ⟨fd, hends, hlowest, hleaves⟩ | ⟨hnot, errno, heq⟩
    · rw [hlowest, List.find?_cons_of_pos hends]
      exact hleaves
    · have hrest := ih { p with errno }
      rw [heq]
      rcases hnot with hnot | hnot
      · rwa [List.find?_cons_of_neg (by simp [hnot])]
      · simp only [hnot] at hrest ⊢
        exact hrest

section Passive

variable {doListen : Bool} {descriptors : ℕ → Option (Endpoint A)} {fd : ℕ}

theorem inetPassiveSocket_none (backlog : ℤ)
    (h : Leaves (bindFirst p doListen result) none descriptors) :
    Leaves (inetPassiveSocket p (.ok result) doListen backlog) none descriptors := by
  obtain ⟨hreturned, hleft⟩ := h
  rw [inetPassiveSocket]
  cases hbound : bindFirst p doListen result with
  | mk q bound =>
    rw [hbound] at hreturned hleft
    obtain rfl : bound = none := hreturned
    exact ⟨rfl, hleft⟩

/-- The socket has been bound; its descriptor stays when `listen` fails. -/
theorem inetPassiveSocket_some (backlog : ℤ)
    (h : Leaves (bindFirst p doListen result) (some (rp, fd))
      (Function.update descriptors fd (some (.socket doListen (.bound rp.addr))))) :
    if doListen = true ∧ failure rp.listen ≠ none then
      Leaves (inetPassiveSocket p (.ok result) doListen backlog) none
        (Function.update descriptors fd (some (.socket true (.bound rp.addr))))
    else Leaves (inetPassiveSocket p (.ok result) doListen backlog) (some (fd, rp.addrlen))
      (Function.update descriptors fd (some (.socket doListen
        (if doListen then .listening rp.addr backlog else .bound rp.addr)))) := by
  obtain ⟨hreturned, hleft⟩ := h
  rw [inetPassiveSocket]
  cases hbound : bindFirst p doListen result with
  | mk q bound =>
    rw [hbound] at hreturned hleft
    obtain rfl : bound = some (rp, fd) := hreturned
    dsimp only at hleft ⊢
    cases doListen with
    | false => exact ⟨rfl, hleft⟩
    | true =>
      cases hlisten : rp.listen with
      | error errno =>
        rw [if_pos ⟨rfl, by simp⟩]
        exact ⟨rfl, hleft⟩
      | ok u =>
        rw [if_neg (by simp)]
        refine ⟨rfl, ?_⟩
        simp only [if_true, Files.call_ok, setSocket, hleft, Function.update_idem]

end Passive

theorem inetPassiveSocket_leaves (p : Files (Endpoint A)) (doListen : Bool) (backlog : ℤ)
    (result : List (AddrInfo A)) :
    match lowestFree p.limit p.descriptors, result.find? (AddrInfo.ends doListen) with
    | some fd, some rp =>
      if doListen = true ∧ failure rp.setsockopt ≠ none then
        Leaves (inetPassiveSocket p (.ok result) doListen backlog) none p.descriptors
      else if doListen = true ∧ failure rp.listen ≠ none then
        Leaves (inetPassiveSocket p (.ok result) doListen backlog) none
          (Function.update p.descriptors fd (some (.socket true (.bound rp.addr))))
      else Leaves (inetPassiveSocket p (.ok result) doListen backlog) (some (fd, rp.addrlen))
        (Function.update p.descriptors fd (some (.socket doListen
          (if doListen then .listening rp.addr backlog else .bound rp.addr))))
    | _, _ => Leaves (inetPassiveSocket p (.ok result) doListen backlog) none p.descriptors := by
  have hbind := bindFirst_leaves p doListen result
  cases hlowest : lowestFree p.limit p.descriptors with
  | none =>
    rw [hlowest] at hbind
    exact inetPassiveSocket_none backlog hbind
  | some fd =>
    cases hfirst : result.find? (AddrInfo.ends doListen) with
    | none =>
      rw [hlowest, hfirst] at hbind
      exact inetPassiveSocket_none backlog hbind
    | some rp =>
      rw [hlowest, hfirst] at hbind
      dsimp only at hbind ⊢
      by_cases hset : doListen = true ∧ failure rp.setsockopt ≠ none
      · rw [if_pos hset] at hbind ⊢
        exact inetPassiveSocket_none backlog hbind
      · rw [if_neg hset] at hbind ⊢
        exact inetPassiveSocket_some backlog hbind

end Inet

/-! ### The sockets of `unix_sockets.c` -/

/-- The paths that are refused. -/
def pathFailure : Option (List UInt8) → Option ℕ
  | none => some einval
  | some path => if (cString 0 path).length < sunPath - 1 then none else some einval

theorem failure_unixBuildAddress (path : Option (List UInt8)) :
    failure (unixBuildAddress path) = pathFailure path := by
  cases path with
  | none => rfl
  | some path =>
    rw [unixBuildAddress, pathFailure]
    rcases Nat.lt_or_ge (cString 0 path).length (sunPath - 1) with hlt | hge
    · rw [if_neg hlt.not_ge, if_pos (hlt.trans_le (Nat.sub_le _ _)), if_pos hlt, failure_ok]
    · rw [if_pos hge, if_neg hge.not_gt, failure_error]

/-- The address holds the path and its end. -/
theorem unixBuildAddress_eq_ok {path : Option (List UInt8)} {addr : List UInt8}
    (h : unixBuildAddress path = .ok addr) : ∃ text, path = some text ∧ addr.length = sunPath ∧
      cString 0 addr = cString 0 text ∧ (cString 0 text).length < addr.length := by
  cases path with
  | none => cases h
  | some text =>
    rw [unixBuildAddress] at h
    split_ifs at h with hlong hfits
    cases h
    have hone : (List.replicate sunPath (0 : UInt8)).drop (sunPath - 1) = List.replicate 1 0 := by
      rw [List.drop_replicate]
      rfl
    have hlength : (strncpy 0 (sunPath - 1) text ++ List.replicate 1 0).length = sunPath := by
      rw [List.length_append, length_strncpy, List.length_replicate]
      rfl
    rw [hone]
    refine ⟨text, rfl, hlength, ?_, hfits.trans_eq hlength.symm⟩
    rw [cString_padded, cString_strncpy (Nat.le_of_not_ge hlong)]

section Unix

variable {p : Files (Endpoint (List UInt8))}

/-- A socket for the path, and nothing else, is new. -/
def Made (p : Files (Endpoint (List UInt8))) (path : Option (List UInt8))
    (state : List UInt8 → SocketState (List UInt8)) (made : ℕ × Files (Endpoint (List UInt8))) : Prop :=
  ∃ text, path = some text ∧ Opened p (.socket false (state (cString 0 text))) made.1 made.2

theorem unixConnect_meets (p : Files (Endpoint (List UInt8))) (calls : UnixCalls)
    (path : Option (List UInt8)) :
    Meets (· = p.descriptors) (pathFailure path ::
        (newFailures p (calls.socket.map fun _ => .socket false .fresh) ++ [failure calls.connect]))
      (unixConnect p calls path) (Made p path .connected) := by
  rw [← failure_unixBuildAddress]
  refine .cons (.call (by rfl) _) fun addr haddr => .bind (.new (by rfl) _) ?_
  rintro ⟨sd, q⟩ ⟨file, hfile, hopened⟩
  obtain ⟨-, rfl⟩ := map_const_eq_ok hfile
  obtain ⟨text, rfl, -, hname, -⟩ := unixBuildAddress_eq_ok haddr
  refine .cons (.callOrClose hopened.close) fun _ _ => .ok ?_
  exact ⟨text, rfl, hname ▸ opened_set hopened _⟩

theorem unixPassiveSocket_meets (p : Files (Endpoint (List UInt8))) (calls : UnixCalls)
    (path : Option (List UInt8)) (doListen : Bool) (backlog : ℤ) :
    Meets (· = p.descriptors) (pathFailure path ::
        (newFailures p (calls.socket.map fun _ => .socket false .fresh) ++
          failure calls.bind :: if doListen then [failure calls.listen] else []))
      (unixPassiveSocket p calls path doListen backlog)
      (Made p path fun text => if doListen then .listening text backlog else .bound text) := by
  rw [← failure_unixBuildAddress]
  refine .cons (.call (by rfl) _) fun addr haddr => .bind (.new (by rfl) _) ?_
  rintro ⟨sd, q⟩ ⟨file, hfile, hopened⟩
  obtain ⟨-, rfl⟩ := map_const_eq_ok hfile
  obtain ⟨text, rfl, -, hname, -⟩ := unixBuildAddress_eq_ok haddr
  refine .cons (.callOrClose hopened.close) fun _ _ => ?_
  have hbound := opened_set hopened (.socket false (.bound (cString 0 addr)))
  cases doListen with
  | false => exact .ok ⟨text, rfl, hname ▸ hbound⟩
  | true =>
    refine .cons (.callOrClose hbound.close) fun _ _ => .ok ?_
    exact ⟨text, rfl, hname ▸ opened_set hbound _⟩

end Unix

end OsProgramming.Tlpi
