/-
Who may have a channel. The sender of a user gets the descriptor of a
`SetupChannelRequest` whose token resolved to that user. The handler does not
look whether the token resolved at all: `getSender` turns the 0 away,
`setKpAliveSender` makes a sender for it.
-/
import NetChat.Channel
import NetChat.Tokens

namespace NetChat

open Interleave Server

variable {SHA256 : Bytes → Bytes} {ok : Config → Event → Prop} {c c' : Config} {e : Event} {u fd : Int32}

/-- A sender that was not there at the start has the descriptor it was given. -/
theorem sender_given_of_none {s : State} (h : (server SHA256).ReachableWhen ok s c)
    (hnone : s.keepalive_sender_mp u = none) {snd : Sender} (hsnd : c.state.keepalive_sender_mp u = some snd) :
    ∃ g ∈ c.history, g.act.op = .setFd u snd.fd_ := by
  induction h generalizing snd with
  | init =>
    rw [Machine.init, hnone] at hsnd
    cases hsnd
  | @step c c' e _ hs _ ih =>
    rw [hs.history]
    rcases step_sender_fd hs.state hsnd with ho | ⟨-, snd₀, hsnd₀, hfd⟩
    · exact ⟨e, by simp, ho⟩
    · obtain ⟨g, hg, ho⟩ := ih hsnd₀
      exact ⟨g, List.mem_cons_of_mem _ hg, by rw [ho, hfd]⟩

/-- A sender has the descriptor it was given. -/
theorem sender_given (h : (server SHA256).ReachableWhen ok State.initial c) {snd : Sender}
    (hsnd : c.state.keepalive_sender_mp u = some snd) : ∃ g ∈ c.history, g.act.op = .setFd u snd.fd_ :=
  sender_given_of_none h rfl hsnd

namespace Example

/-- A client asks for a channel without a token. -/
def noToken : Schedule :=
  connects 5 ++ handles 0 5 0 (packToPacket .SetupChannelRequest (.SetupChannelRequest ⟨[]⟩))
    [⟨.getUserIdByToken [], 0⟩, replies 5 0 .ServerAckResponse .ServerAckResponse, ⟨.setFd 0 5, false⟩]

/-- Does the token the event looks up stand for a user? -/
def resolves (c : Config) (e : Event) : Bool :=
  match e.act.op with
  | .getUserIdByToken token => c.state.getUserIdByToken token != 0
  | _ => true

end Example

end NetChat
