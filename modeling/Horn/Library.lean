namespace Horn

namespace Library

def lines : List String :=
  ["% Library predicates.",
   "",
   ":- encoding(utf8).",
   "",
   "append([], L, L).",
   "append([H|T], L, [H|R]) :-",
   "    append(T, L, R).",
   "",
   "member(X, [X|_]).",
   "member(X, [_|T]) :-",
   "    member(X, T).",
   "",
   "memberchk(X, L) :-",
   "    member(X, L), !.",
   "",
   "length(L, N) :-",
   "    length_(L, 0, N).",
   "",
   "length_([], N, N).",
   "length_([_|T], N0, N) :-",
   "    N1 is N0 + 1,",
   "    length_(T, N1, N).",
   "",
   "reverse(L, R) :-",
   "    reverse_(L, [], R).",
   "",
   "reverse_([], R, R).",
   "reverse_([H|T], Acc, R) :-",
   "    reverse_(T, [H|Acc], R).",
   "",
   "nth0(I, L, E) :-",
   "    nth_(L, 0, I, E).",
   "",
   "nth1(I, L, E) :-",
   "    nth_(L, 1, I, E).",
   "",
   "nth_([H|_], B, B, H).",
   "nth_([_|T], B0, I, E) :-",
   "    B1 is B0 + 1,",
   "    nth_(T, B1, I, E).",
   "",
   "last([X], X) :- !.",
   "last([_|T], X) :-",
   "    last(T, X).",
   "",
   "between(L, H, L) :-",
   "    L =< H.",
   "between(L, H, X) :-",
   "    L < H,",
   "    L1 is L + 1,",
   "    between(L1, H, X).",
   "",
   "once(G) :-",
   "    call(G), !.",
   "",
   "ignore(G) :-",
   "    ( call(G) -> true ; true ).",
   "",
   "forall(C, A) :-",
   "    \\+ ( call(C), \\+ call(A) ).",
   "",
   "phrase(G, L) :-",
   "    phrase(G, L, []).",
   "",
   "phrase(G, L, R) :-",
   "    call(G, L, R)."]

def name : String := "builtins.pl"

def text : String := String.join (lines.map (· ++ "\n"))

end Library

end Horn
